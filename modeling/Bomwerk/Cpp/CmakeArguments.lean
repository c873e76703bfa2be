import Bomwerk.Cpp.CmakeRendering
import Bomwerk.Support.Segments
import Mathlib.Data.List.TakeWhile

/-!
# Reading back brackets, blanks and arguments

What the scanner does at the front of a rendering: it passes exactly the bytes
of the form that stands there.
-/

namespace Bomwerk.Cpp

open Bomwerk.Core Bomwerk.Support

@[simp] theorem advance_append (front rest : List UInt8) (line : Nat)
    (warnings : List Warning) :
    Cursor.advance ⟨front ++ rest, line, warnings⟩ front.length =
      ⟨rest, line + front.count '\n'.toUInt8, warnings⟩ := by
  simp [Cursor.advance]

theorem advance_cons (first : UInt8) (rest : List UInt8) (line : Nat)
    (warnings : List Warning) :
    Cursor.advance ⟨first :: rest, line, warnings⟩ 1 =
      ⟨rest, line + [first].count '\n'.toUInt8, warnings⟩ :=
  advance_append [first] rest line warnings

/-! ## Brackets -/

@[simp] theorem advance_zero (cursor : Cursor) : cursor.advance 0 = cursor := by
  simp [Cursor.advance]

theorem matchBracketOpen_opener (level : Nat) (rest : List UInt8) :
    matchBracketOpen (ArgumentForm.bracketOpener level ++ rest) =
      some level := by
  have hequals : (List.replicate level '='.toUInt8 ++
      '['.toUInt8 :: rest).takeWhile (· = '='.toUInt8) =
        List.replicate level '='.toUInt8 := by
    refine (takeWhile_append_of_stop _ _ _ ?_ ?_).1
    · intro character hmem
      simp [List.eq_of_mem_replicate hmem]
    · intro character hhead
      obtain rfl := Option.some.inj hhead
      decide
  simp [ArgumentForm.bracketOpener, matchBracketOpen, hequals]

theorem exists_of_matchBracketOpen {bytes : List UInt8} {level : Nat}
    (h : matchBracketOpen bytes = some level) :
    ∃ rest, bytes = ArgumentForm.bracketOpener level ++ rest := by
  cases bytes with
  | nil => simp [matchBracketOpen] at h
  | cons character rest =>
    simp only [matchBracketOpen] at h
    split at h
    · rename_i hopen
      obtain ⟨rfl, hbracket⟩ := hopen
      obtain ⟨hlt, hget⟩ := List.getElem?_eq_some_iff.mp hbracket
      set equals := rest.takeWhile (· = '='.toUInt8) with hequals
      obtain rfl := Option.some.inj h
      have hreplicate :
          equals = List.replicate equals.length '='.toUInt8 := by
        rw [List.eq_replicate_iff]
        refine ⟨rfl, ?_⟩
        intro byte hmem
        simpa using List.mem_takeWhile_imp hmem
      have hstarts : rest.take equals.length = equals :=
        (List.prefix_iff_eq_take.mp (List.takeWhile_prefix _)).symm
      refine ⟨rest.drop (equals.length + 1), ?_⟩
      have hrest : rest = equals ++
          ('['.toUInt8 :: rest.drop (equals.length + 1)) := by
        conv_lhs => rw [← List.take_append_drop equals.length rest]
        rw [hstarts, List.drop_eq_getElem_cons hlt, hget]
      rw [ArgumentForm.bracketOpener, ← hreplicate]
      simpa using hrest
    · cases h

theorem startsBracket_of_matchBracketOpen {bytes : List UInt8} {level : Nat}
    (h : matchBracketOpen bytes = some level) : StartsBracket bytes :=
  ⟨level, exists_of_matchBracketOpen h⟩

theorem matchBracketOpen_eq_none {bytes : List UInt8}
    (h : ¬StartsBracket bytes) : matchBracketOpen bytes = none := by
  cases hopen : matchBracketOpen bytes with
  | none => rfl
  | some level => exact absurd (startsBracket_of_matchBracketOpen hopen) h

theorem matchBracketClose_closer (level : Nat) (rest : List UInt8) :
    matchBracketClose level (bracketCloser level ++ rest) = true := by
  simp [matchBracketClose]

theorem closesAtEnd_tail {level : Nat} {character : UInt8} {body : List UInt8}
    (h : ClosesAtEnd level (character :: body)) : ClosesAtEnd level body := by
  intro before after heq
  apply h (character :: before) after
  simp [heq]

theorem matchBracketClose_eq_false {level : Nat} {character : UInt8}
    {body : List UInt8} (h : ClosesAtEnd level (character :: body))
    (rest : List UInt8) :
    matchBracketClose level
      (character :: (body ++ (bracketCloser level ++ rest))) = false := by
  rw [Bool.eq_false_iff]
  intro hclose
  have hstarts : bracketCloser level <+:
      (character :: body ++ bracketCloser level) ++ rest := by
    simpa [matchBracketClose] using hclose
  -- the closer fits before `rest`, so it would occur in front of the end
  obtain ⟨after, hafter⟩ := List.prefix_of_prefix_length_le hstarts
    (List.prefix_append _ rest) (by simp; omega)
  have hnil : after = [] := h [] after (by simpa using hafter.symm)
  have hlength := congrArg List.length hafter
  simp only [hnil, List.append_nil, List.length_append, List.length_cons]
    at hlength
  omega

/-- The loop up to a closer stops at the first one, which is the one behind the
body. -/
theorem bracketText_body {level : Nat} {body : List UInt8}
    (h : ClosesAtEnd level body) (rest : List UInt8) :
    bracketText level (body ++ (bracketCloser level ++ rest)) = some body := by
  induction body with
  | nil =>
    have hclose := matchBracketClose_closer level rest
    rw [List.nil_append]
    cases hbytes : bracketCloser level ++ rest with
    | nil => simp [bracketCloser] at hbytes
    | cons character bytes =>
      rw [hbytes] at hclose
      simp [bracketText, hclose]
  | cons character body ih =>
    have hopen := matchBracketClose_eq_false h rest
    rw [List.cons_append, bracketText, if_neg (by simp [hopen]),
      ih (closesAtEnd_tail h)]
    rfl

theorem length_bracketOpener (level : Nat) :
    (ArgumentForm.bracketOpener level).length = level + 2 := by
  simp [ArgumentForm.bracketOpener]

theorem length_bracketCloser (level : Nat) :
    (bracketCloser level).length = level + 2 := by
  simp [bracketCloser]

/-! ## Blanks -/

/-- Neither a space nor a comment stands here. -/
def Stops (bytes : List UInt8) : Prop :=
  ∀ character, bytes.head? = some character →
    isSpace character = false ∧ character ≠ '#'.toUInt8

theorem length_advance_le (cursor : Cursor) (count : Nat) :
    (cursor.advance count).rest.length ≤ cursor.rest.length := by
  simp [Cursor.advance]

theorem length_skipComment_le (cursor : Cursor) :
    (skipComment cursor).rest.length ≤ cursor.rest.length - 1 := by
  have hone : (cursor.advance 1).rest.length ≤ cursor.rest.length - 1 := by
    simp [Cursor.advance]
  simp only [skipComment]
  split
  · rename_i level _
    have hopen := length_advance_le (cursor.advance 1) (level + 2)
    split
    · rename_i body _
      have hbody := length_advance_le ((cursor.advance 1).advance (level + 2))
        (body.length + (level + 2))
      omega
    · have hall := length_advance_le ((cursor.advance 1).advance (level + 2))
        ((cursor.advance 1).advance (level + 2)).rest.length
      simp only [Cursor.warn]
      omega
  · exact (length_advance_le _ _).trans hone

/-- With enough fuel the loop does not depend on it. -/
theorem skipIgnorableWithin_eq (fuel : Nat) (cursor : Cursor)
    (hfuel : cursor.rest.length ≤ fuel) :
    skipIgnorableWithin fuel cursor = skipIgnorable cursor := by
  suffices hboth : ∀ (fuel more : Nat) (cursor : Cursor),
      cursor.rest.length ≤ fuel → cursor.rest.length ≤ more →
        skipIgnorableWithin fuel cursor = skipIgnorableWithin more cursor from
    hboth fuel cursor.rest.length cursor hfuel le_rfl
  intro fuel
  induction fuel with
  | zero =>
    intro more cursor hfuel _
    have hnil : cursor.rest = [] := by simpa using hfuel
    cases more <;> simp [skipIgnorableWithin, hnil]
  | succ fuel ih =>
    intro more cursor hfuel hmore
    cases more with
    | zero =>
      have hnil : cursor.rest = [] := by simpa using hmore
      simp [skipIgnorableWithin, hnil]
    | succ more =>
      simp only [skipIgnorableWithin]
      cases hrest : cursor.rest with
      | nil => rfl
      | cons character rest =>
        have hspace : (cursor.advance 1).rest.length ≤ rest.length := by
          simp [Cursor.advance, hrest]
        have hcomment := length_skipComment_le cursor
        rw [hrest] at hfuel hmore hcomment
        simp only [List.length_cons] at hfuel hmore hcomment
        by_cases hblank : isSpace character = true
        · simp only [hblank, if_true]
          exact ih more _ (by omega) (by omega)
        · simp only [hblank, if_false, Bool.false_eq_true]
          by_cases hhash : character = '#'.toUInt8
          · simp only [hhash, if_true]
            exact ih more _ (by omega) (by omega)
          · simp only [hhash, if_false]

theorem skipIgnorable_space {character : UInt8}
    (hspace : isSpace character = true) (rest : List UInt8) (line : Nat)
    (warnings : List Warning) :
    skipIgnorable ⟨character :: rest, line, warnings⟩ =
      skipIgnorable ⟨rest, line + [character].count '\n'.toUInt8, warnings⟩ := by
  rw [skipIgnorable, List.length_cons, skipIgnorableWithin]
  simp only [hspace, if_true, advance_cons]
  exact skipIgnorableWithin_eq _ _ le_rfl

theorem skipIgnorable_comment (rest : List UInt8) (line : Nat)
    (warnings : List Warning) :
    skipIgnorable ⟨'#'.toUInt8 :: rest, line, warnings⟩ =
      skipIgnorable (skipComment ⟨'#'.toUInt8 :: rest, line, warnings⟩) := by
  have hspace : isSpace '#'.toUInt8 = false := by decide
  rw [skipIgnorable, List.length_cons, skipIgnorableWithin]
  simp only [hspace, Bool.false_eq_true, if_false, if_true]
  apply skipIgnorableWithin_eq
  simpa using
    length_skipComment_le ⟨'#'.toUInt8 :: rest, line, warnings⟩

theorem skipIgnorable_stops {rest : List UInt8} (hstops : Stops rest)
    (line : Nat) (warnings : List Warning) :
    skipIgnorable ⟨rest, line, warnings⟩ = ⟨rest, line, warnings⟩ := by
  cases rest with
  | nil => rfl
  | cons character rest =>
    obtain ⟨hspace, hcomment⟩ := hstops character rfl
    simp [skipIgnorable, skipIgnorableWithin, hspace, hcomment]

theorem startsBracket_of_lineEnd {body rest : List UInt8}
    (h : StartsBracket (body ++ '\n'.toUInt8 :: rest)) :
    StartsBracket body := by
  obtain ⟨level, behind, hbehind⟩ := h
  -- an opener has no newline, so it ends within the line
  have hnewline : '\n'.toUInt8 ∉ ArgumentForm.bracketOpener level := by
    intro hmem
    simp only [ArgumentForm.bracketOpener, List.mem_cons, List.mem_append,
      List.mem_replicate, List.not_mem_nil, or_false] at hmem
    rcases hmem with h | ⟨_, h⟩ | h <;> revert h <;> decide
  rcases List.append_eq_append_iff.mp hbehind with
    ⟨middle, hopener, hrest⟩ | ⟨middle, hbody, _⟩
  · cases middle with
    | nil => exact ⟨level, [], by simpa using hopener.symm⟩
    | cons first middle =>
      obtain ⟨rfl, _⟩ := List.cons.inj hrest
      exact absurd (by simp [hopener]) hnewline
  · exact ⟨level, middle, hbody⟩

theorem takeWhile_lineBody {body : List UInt8} (h : '\n'.toUInt8 ∉ body)
    (rest : List UInt8) :
    (body ++ '\n'.toUInt8 :: rest).takeWhile (· ≠ '\n'.toUInt8) = body :=
  (takeWhile_append_mark h rest).1

theorem skipComment_line {body : List UInt8} (h : IsLineComment body)
    (rest : List UInt8) (line : Nat) (warnings : List Warning) :
    skipComment
        ⟨'#'.toUInt8 :: (body ++ '\n'.toUInt8 :: rest), line, warnings⟩ =
      ⟨'\n'.toUInt8 :: rest, line, warnings⟩ := by
  have hopen : matchBracketOpen (body ++ '\n'.toUInt8 :: rest) = none :=
    matchBracketOpen_eq_none fun hstart => h.2 (startsBracket_of_lineEnd hstart)
  have hcount : body.count '\n'.toUInt8 = 0 := List.count_eq_zero.mpr h.1
  simp only [skipComment, advance_cons, hopen, takeWhile_lineBody h.1,
    advance_append, hcount]
  rfl

theorem skipComment_bracket {level : Nat} {body : List UInt8}
    (h : ClosesAtEnd level body) (rest : List UInt8) (line : Nat)
    (warnings : List Warning) :
    skipComment
        ⟨(Blank.bracketComment level body).bytes ++ rest, line, warnings⟩ =
      ⟨rest, line + (Blank.bracketComment level body).bytes.count '\n'.toUInt8,
        warnings⟩ := by
  have hopener := advance_append (ArgumentForm.bracketOpener level)
    (body ++ (bracketCloser level ++ rest))
  have hcloser := advance_append (body ++ bracketCloser level) rest
  rw [length_bracketOpener] at hopener
  rw [List.length_append, length_bracketCloser] at hcloser
  simp only [Blank.bytes, List.cons_append, List.append_assoc, skipComment,
    advance_cons, matchBracketOpen_opener, hopener, bracketText_body h]
  rw [← List.append_assoc, hcloser]
  simp [List.count_cons]
  omega

theorem skipIgnorable_blank {separator : Blank} (h : separator.IsValid)
    (rest : List UInt8) (line : Nat) (warnings : List Warning) :
    skipIgnorable ⟨separator.bytes ++ rest, line, warnings⟩ = skipIgnorable
        ⟨rest, line + separator.bytes.count '\n'.toUInt8, warnings⟩ := by
  cases separator with
  | space character => exact skipIgnorable_space h rest line warnings
  | lineComment body =>
    -- the newline stays behind the comment, as a space
    have hcount : (Blank.lineComment body).bytes.count '\n'.toUInt8 = 1 := by
      rw [Blank.bytes, List.count_cons_of_ne (by decide), List.count_append,
        List.count_eq_zero.mpr h.1]
      rfl
    have hbytes : (Blank.lineComment body).bytes ++ rest =
        '#'.toUInt8 :: (body ++ '\n'.toUInt8 :: rest) := by
      simp [Blank.bytes]
    rw [hbytes, skipIgnorable_comment, skipComment_line h,
      skipIgnorable_space (by decide), hcount]
    rfl
  | bracketComment level body =>
    have hcomment := skipComment_bracket h rest line warnings
    rw [← hcomment]
    exact skipIgnorable_comment _ line warnings

theorem skipIgnorable_blanks {blanks : List Blank}
    (h : ∀ blank ∈ blanks, blank.IsValid) (rest : List UInt8) (line : Nat)
    (warnings : List Warning) :
    skipIgnorable ⟨blankBytes blanks ++ rest, line, warnings⟩ = skipIgnorable
        ⟨rest, line + (blankBytes blanks).count '\n'.toUInt8, warnings⟩ := by
  induction blanks generalizing line with
  | nil => simp [blankBytes]
  | cons blank blanks ih =>
    have hfirst := skipIgnorable_blank (h blank (by simp))
      (blankBytes blanks ++ rest) line warnings
    have htail := ih (fun other hmem => h other (by simp [hmem]))
      (line + blank.bytes.count '\n'.toUInt8)
    have hbytes : blankBytes (blank :: blanks) =
        blank.bytes ++ blankBytes blanks := by
      simp [blankBytes]
    rw [hbytes, List.append_assoc, hfirst, htail, List.count_append,
      Nat.add_assoc]

theorem skipIgnorable_lastComment {body : List UInt8} (h : IsLineComment body)
    (line : Nat) (warnings : List Warning) :
    skipIgnorable ⟨'#'.toUInt8 :: body, line, warnings⟩ =
      ⟨[], line, warnings⟩ := by
  have hcount : body.count '\n'.toUInt8 = 0 := List.count_eq_zero.mpr h.1
  have hall : body.takeWhile (· ≠ '\n'.toUInt8) = body := by
    rw [List.takeWhile_eq_self_iff]
    intro character hmem
    have hne : character ≠ '\n'.toUInt8 := by
      rintro rfl
      exact h.1 hmem
    simpa using hne
  have hhash : ['#'.toUInt8].count '\n'.toUInt8 = 0 := by decide
  have hend := advance_append body [] line warnings
  rw [List.append_nil, hcount] at hend
  have hcomment : skipComment ⟨'#'.toUInt8 :: body, line, warnings⟩ =
      ⟨[], line, warnings⟩ := by
    simp only [skipComment, advance_cons, matchBracketOpen_eq_none h.2, hall,
      hhash]
    exact hend
  rw [skipIgnorable_comment, hcomment]
  rfl

theorem quotedText_quote (rest : List UInt8) :
    quotedText ('"'.toUInt8 :: rest) = { passed := 1, terminated := true } := by
  cases rest <;> simp [quotedText]

theorem quotedText_escape (character : UInt8) (rest : List UInt8) :
    quotedText ('\\'.toUInt8 :: character :: rest) =
      (quotedText rest).push character 2 := by
  have hne : '\\'.toUInt8 ≠ '"'.toUInt8 := by decide
  simp [quotedText, hne]

theorem quotedText_plain {character : UInt8}
    (hquote : character ≠ '"'.toUInt8) (hescape : character ≠ '\\'.toUInt8)
    (rest : List UInt8) :
    quotedText (character :: rest) = (quotedText rest).push character 1 := by
  cases rest <;> simp [quotedText, hquote, hescape, ArgumentText.push]

theorem bareText_stop {rest : List UInt8}
    (h : ∃ character behind, rest = character :: behind ∧
      endsBareArgument character = true) : bareText rest = {} := by
  obtain ⟨character, behind, rfl, hends⟩ := h
  have hescape : character ≠ '\\'.toUInt8 := by
    rintro rfl
    exact absurd hends (by decide)
  cases behind <;> simp [bareText, hends, hescape]

theorem bareText_escape (character : UInt8) (rest : List UInt8) :
    bareText ('\\'.toUInt8 :: character :: rest) =
      (bareText rest).push character 2 := by
  simp [bareText]

theorem bareText_plain {character : UInt8}
    (hends : endsBareArgument character = false)
    (hescape : character ≠ '\\'.toUInt8) (rest : List UInt8) :
    bareText (character :: rest) = (bareText rest).push character 1 := by
  cases rest <;> simp [bareText, hends, hescape, ArgumentText.push]

theorem escapes_tail {special : List UInt8} {first : Spelled}
    {spelling : List Spelled} (h : Escapes special (first :: spelling)) :
    Escapes special spelling :=
  fun spelled hmem => h spelled (by simp [hmem])

theorem not_mem_of_plain {special : List UInt8} {first : Spelled}
    {spelling : List Spelled} (h : Escapes special (first :: spelling))
    (hplain : first.escaped = false) : first.character ∉ special := by
  intro hmem
  have hescaped := h first (by simp) hmem
  rw [hplain] at hescaped
  cases hescaped

theorem quotedText_spelled {spelling : List Spelled}
    (h : Escapes (text "\"\\") spelling) (rest : List UInt8) :
    quotedText (spelledBytes spelling ++ '"'.toUInt8 :: rest) =
      { value := spelledValue spelling
        passed := (spelledBytes spelling).length + 1
        terminated := true } := by
  induction spelling with
  | nil => exact quotedText_quote rest
  | cons first spelling ih =>
    have htail := ih (escapes_tail h)
    cases hescaped : first.escaped with
    | true =>
      have hbytes : spelledBytes (first :: spelling) ++ '"'.toUInt8 :: rest =
          '\\'.toUInt8 :: first.character ::
            (spelledBytes spelling ++ '"'.toUInt8 :: rest) := by
        simp [spelledBytes, Spelled.bytes, hescaped]
      rw [hbytes, quotedText_escape, htail]
      simp [ArgumentText.push, spelledValue, spelledBytes, Spelled.bytes,
        hescaped]
    | false =>
      have hplain := not_mem_of_plain h hescaped
      have hbytes : spelledBytes (first :: spelling) ++ '"'.toUInt8 :: rest =
          first.character ::
            (spelledBytes spelling ++ '"'.toUInt8 :: rest) := by
        simp [spelledBytes, Spelled.bytes, hescaped]
      have hquote : first.character ≠ '"'.toUInt8 := fun heq =>
        hplain (heq ▸ by decide)
      have hescape : first.character ≠ '\\'.toUInt8 := fun heq =>
        hplain (heq ▸ by decide)
      rw [hbytes, quotedText_plain hquote hescape, htail]
      simp [ArgumentText.push, spelledValue, spelledBytes, Spelled.bytes,
        hescaped]

def EndsBare (rest : List UInt8) : Prop :=
  ∃ character behind, rest = character :: behind ∧
    endsBareArgument character = true

theorem endsBareArgument_eq_false {character : UInt8}
    (h : character ∉ bareSpecial) :
    endsBareArgument character = false ∧ character ≠ '\\'.toUInt8 := by
  have hspecial : bareSpecial =
      [' '.toUInt8, '\t'.toUInt8, '\r'.toUInt8, '\n'.toUInt8, '('.toUInt8,
        ')'.toUInt8, '"'.toUInt8, '\\'.toUInt8] := by
    decide
  simp only [hspecial, List.mem_cons, List.not_mem_nil, or_false, not_or] at h
  simp [endsBareArgument, isSpace, h]

theorem bareText_spelled {spelling : List Spelled} {rest : List UInt8}
    (h : Escapes bareSpecial spelling) (hends : EndsBare rest) :
    bareText (spelledBytes spelling ++ rest) =
      { value := spelledValue spelling
        passed := (spelledBytes spelling).length } := by
  induction spelling with
  | nil => exact bareText_stop hends
  | cons first spelling ih =>
    have htail := ih (escapes_tail h)
    cases hescaped : first.escaped with
    | true =>
      have hbytes : spelledBytes (first :: spelling) ++ rest =
          '\\'.toUInt8 :: first.character ::
            (spelledBytes spelling ++ rest) := by
        simp [spelledBytes, Spelled.bytes, hescaped]
      rw [hbytes, bareText_escape, htail]
      simp [ArgumentText.push, spelledValue, spelledBytes, Spelled.bytes,
        hescaped]
    | false =>
      have hplain := not_mem_of_plain h hescaped
      obtain ⟨hgoesOn, hescape⟩ := endsBareArgument_eq_false hplain
      have hbytes : spelledBytes (first :: spelling) ++ rest =
          first.character :: (spelledBytes spelling ++ rest) := by
        simp [spelledBytes, Spelled.bytes, hescaped]
      rw [hbytes, bareText_plain hgoesOn hescape, htail]
      simp [ArgumentText.push, spelledValue, spelledBytes, Spelled.bytes,
        hescaped]

/-! ## Arguments -/

/-- What the first character of an argument is not. -/
structure StartsArgument (bytes : List UInt8) : Prop where
  stops : Stops bytes
  not_opening : bytes.head? ≠ some '('.toUInt8
  not_closing : bytes.head? ≠ some ')'.toUInt8
  nonempty : bytes ≠ []

theorem bare_front {spelling : List Spelled}
    (h : (ArgumentForm.bare spelling).IsValid) :
    ∃ first rest, spelledBytes spelling = first :: rest ∧
      (first = '\\'.toUInt8 ∨ first ∉ bareSpecial ∧ first ∉ frontSpecial) := by
  obtain ⟨hne, hspecial, hfront⟩ := h
  cases spelling with
  | nil => exact absurd rfl hne
  | cons first spelling =>
    cases hescaped : first.escaped with
    | true =>
      refine ⟨'\\'.toUInt8, first.character :: spelledBytes spelling, ?_,
        Or.inl rfl⟩
      simp [spelledBytes, Spelled.bytes, hescaped]
    | false =>
      refine ⟨first.character, spelledBytes spelling, ?_, Or.inr ⟨?_, ?_⟩⟩
      · simp [spelledBytes, Spelled.bytes, hescaped]
      · exact not_mem_of_plain hspecial hescaped
      · exact not_mem_of_plain hfront hescaped

theorem startsArgument_cons {first : UInt8} (rest : List UInt8)
    (hspace : isSpace first = false) (hcomment : first ≠ '#'.toUInt8)
    (hopening : first ≠ '('.toUInt8) (hclosing : first ≠ ')'.toUInt8) :
    StartsArgument (first :: rest) := by
  constructor
  · intro character hhead
    obtain rfl := Option.some.inj hhead
    exact ⟨hspace, hcomment⟩
  · simpa using hopening
  · simpa using hclosing
  · exact List.cons_ne_nil first rest

theorem startsArgument_form {form : ArgumentForm} (h : form.IsValid)
    (rest : List UInt8) : StartsArgument (form.bytes ++ rest) := by
  cases form with
  | quoted spelling =>
    exact startsArgument_cons _ (by decide) (by decide) (by decide)
      (by decide)
  | bracketed level body =>
    exact startsArgument_cons _ (by decide) (by decide) (by decide)
      (by decide)
  | bare spelling =>
    obtain ⟨first, behind, hbytes, hfirst⟩ := bare_front h
    rw [ArgumentForm.bytes, hbytes]
    rcases hfirst with rfl | ⟨hspecial, hfront⟩
    · exact startsArgument_cons _ (by decide) (by decide) (by decide)
        (by decide)
    · have hends := (endsBareArgument_eq_false hspecial).1
      simp only [endsBareArgument, Bool.or_eq_false_iff,
        decide_eq_false_iff_not] at hends
      obtain ⟨⟨⟨hspace, hopening⟩, hclosing⟩, _⟩ := hends
      have hcomment : first ≠ '#'.toUInt8 := fun heq =>
        hfront (heq ▸ by decide)
      exact startsArgument_cons _ hspace hcomment hopening hclosing

theorem bounded_eq_self {value : List UInt8}
    (h : value.length ≤ maxArgumentBytes) : bounded value = value :=
  List.take_of_length_le h

theorem readQuotedArgument_form {spelling : List Spelled}
    (h : Escapes (text "\"\\") spelling) (rest : List UInt8) (line : Nat)
    (warnings : List Warning) :
    readQuotedArgument
        ⟨(ArgumentForm.quoted spelling).bytes ++ rest, line, warnings⟩ =
      (⟨rest, line +
          (ArgumentForm.quoted spelling).bytes.count '\n'.toUInt8, warnings⟩,
        bounded (spelledValue spelling)) := by
  have hbytes : (ArgumentForm.quoted spelling).bytes ++ rest =
      '"'.toUInt8 :: (spelledBytes spelling ++ '"'.toUInt8 :: rest) := by
    simp [ArgumentForm.bytes]
  have hpast := advance_append (spelledBytes spelling ++ ['"'.toUInt8]) rest
    (line + ['"'.toUInt8].count '\n'.toUInt8) warnings
  have hfront : spelledBytes spelling ++ ['"'.toUInt8] ++ rest =
      spelledBytes spelling ++ '"'.toUInt8 :: rest := by
    simp
  have hcount : (ArgumentForm.quoted spelling).bytes.count '\n'.toUInt8 =
      ['"'.toUInt8].count '\n'.toUInt8 +
        (spelledBytes spelling ++ ['"'.toUInt8]).count '\n'.toUInt8 := by
    rw [← List.count_append]
    rfl
  rw [hfront, List.length_append] at hpast
  rw [hbytes, hcount, ← Nat.add_assoc]
  simp only [readQuotedArgument, advance_cons, quotedText_spelled h, if_true]
  exact congrArg (·, bounded (spelledValue spelling)) hpast

theorem readBracketArgument_form {level : Nat} {body : List UInt8}
    (h : ClosesAtEnd level body) (rest : List UInt8) (line : Nat)
    (warnings : List Warning) :
    readBracketArgument level
        (Cursor.advance ⟨(ArgumentForm.bracketed level body).bytes ++ rest,
          line, warnings⟩ (level + 2)) =
      (⟨rest, line +
          (ArgumentForm.bracketed level body).bytes.count '\n'.toUInt8,
          warnings⟩, bounded body) := by
  have hopener := advance_append (ArgumentForm.bracketOpener level)
    (body ++ (bracketCloser level ++ rest)) line warnings
  have hcloser := advance_append (body ++ bracketCloser level) rest
    (line + (ArgumentForm.bracketOpener level).count '\n'.toUInt8) warnings
  rw [length_bracketOpener] at hopener
  rw [List.length_append, length_bracketCloser, List.append_assoc] at hcloser
  simp only [ArgumentForm.bytes, List.append_assoc, hopener,
    readBracketArgument, bracketText_body h, hcloser]
  have hcount : (ArgumentForm.bracketOpener level ++
      (body ++ bracketCloser level)).count '\n'.toUInt8 =
        (ArgumentForm.bracketOpener level).count '\n'.toUInt8 +
          (body ++ bracketCloser level).count '\n'.toUInt8 :=
    List.count_append
  rw [hcount, Nat.add_assoc]

theorem readBareArgument_form {spelling : List Spelled}
    (h : Escapes bareSpecial spelling) {rest : List UInt8}
    (hends : EndsBare rest) (line : Nat) (warnings : List Warning) :
    readBareArgument ⟨spelledBytes spelling ++ rest, line, warnings⟩ =
      (⟨rest, line + (spelledBytes spelling).count '\n'.toUInt8, warnings⟩,
        bounded (spelledValue spelling)) := by
  simp only [readBareArgument, bareText_spelled h hends, advance_append]

/-- A whole argument stands in front of these bytes, of whatever length. -/
def ArgumentForm.StandsBefore (following : List UInt8) : ArgumentForm → Prop
  | .quoted spelling => Escapes (text "\"\\") spelling
  | .bracketed level body => ClosesAtEnd level body
  | .bare spelling =>
    Escapes bareSpecial spelling ∧ EndsBare following ∧
      StartsArgument (spelledBytes spelling ++ following) ∧
      (spelledBytes spelling ++ following).head? ≠ some '"'.toUInt8 ∧
      ¬StartsBracket (spelledBytes spelling ++ following)

/-- Reading an argument passes its form and gives what fits of its value. -/
theorem readArgument_standsBefore {form : ArgumentForm}
    {following : List UInt8} (h : form.StandsBefore following) (line : Nat)
    (warnings : List Warning) :
    readArgument ⟨form.bytes ++ following, line, warnings⟩ =
      (⟨following, line + form.bytes.count '\n'.toUInt8, warnings⟩,
        bounded form.value) := by
  cases form with
  | quoted spelling =>
    have hquote : ((ArgumentForm.quoted spelling).bytes ++ following).head? =
        some '"'.toUInt8 := rfl
    rw [readArgument, if_pos hquote]
    exact readQuotedArgument_form h following line warnings
  | bracketed level body =>
    have hquote :
        ((ArgumentForm.bracketed level body).bytes ++ following).head? ≠
          some '"'.toUInt8 := by
      simp only [ArgumentForm.bytes, ArgumentForm.bracketOpener,
        List.cons_append, List.head?_cons]
      decide
    have hopen : matchBracketOpen
        ((ArgumentForm.bracketed level body).bytes ++ following) =
          some level := by
      rw [ArgumentForm.bytes, List.append_assoc]
      exact matchBracketOpen_opener level _
    rw [readArgument, if_neg hquote]
    simp only [hopen]
    exact readBracketArgument_form h following line warnings
  | bare spelling =>
    obtain ⟨hspecial, hends, _, hquote, hbracket⟩ := h
    rw [readArgument, ArgumentForm.bytes, if_neg hquote]
    simp only [matchBracketOpen_eq_none hbracket]
    exact readBareArgument_form hspecial hends line warnings

theorem standsBefore_of_isValid {form : ArgumentForm} (h : form.IsValid)
    {following : List UInt8}
    (hends : ∀ spelling, form = .bare spelling → EndsBare following) :
    form.StandsBefore following := by
  cases form with
  | quoted spelling => exact h
  | bracketed level body => exact h.1
  | bare spelling =>
    have hstart := startsArgument_form h following
    obtain ⟨first, behind, hbytes, hfirst⟩ := bare_front h
    have hquote : first ≠ '"'.toUInt8 := by
      rintro rfl
      rcases hfirst with heq | ⟨hspecial, _⟩
      · revert heq
        decide
      · exact hspecial (by decide)
    have hbracket : first ≠ '['.toUInt8 := by
      rintro rfl
      rcases hfirst with heq | ⟨_, hfront⟩
      · revert heq
        decide
      · exact hfront (by decide)
    refine ⟨h.2.1, hends spelling rfl, hstart, ?_, ?_⟩
    · simpa [hbytes] using hquote
    · rintro ⟨level, rest, heq⟩
      rw [hbytes] at heq
      exact hbracket (List.cons.inj heq).1

end Bomwerk.Cpp
