import Bomwerk.Heuristics.VersionHeader
import Bomwerk.Support.CReplacements

/-!
# Versions and the directives of a header

A version is taken from a `#define` that a preprocessor sees exactly when the
line that the walk stops at is one to the preprocessor as well.
-/

namespace Bomwerk.Heuristics.VersionHeader

open Bomwerk.Core Bomwerk.Lockfiles Bomwerk.Support.CDirectives

/-! ## Visits -/

structure Visit.LiesIn (visit : Visit) (macroName content : List UInt8)
    (blanks : List UInt8) : Prop where
  content_eq : content = visit.before ++ '#'.toUInt8 ::
    (defineKeyword ++ (' '.toUInt8 :: (macroName ++
      (blanks ++ (visit.line ++ visit.behind)))))
  blanks_only : ∀ character ∈ blanks, isSpaceOrTab character = true
  line : newline ∉ visit.line
  line_front : ∀ character ∈ visit.line.head?, isSpaceOrTab character = false
  before : ∀ character ∈ visit.before.getLast?,
    character = newline ∨ isSpaceOrTab character = true
  valueStart : visit.valueStart =
    visit.before.length + 8 + macroName.length + blanks.length
  whole : ∀ character ∈ (blanks ++ (visit.line ++ visit.behind)).head?,
    isIdentifier character = false

theorem drop_takeWhile {α : Type*} (keep : α → Bool) (items : List α) :
    items.drop (items.takeWhile keep).length = items.dropWhile keep := by
  induction items with
  | nil => rfl
  | cons item items ih =>
    by_cases hkeep : keep item = true
    · simp [hkeep, ih]
    · simp [hkeep]

theorem liesIn_of_visitAt {macroName front content : List UInt8} {visit : Visit}
    (h : visitAt macroName front content = some visit) :
    ∃ blanks, visit.LiesIn macroName (front.reverse ++ content) blanks := by
  unfold visitAt at h
  split at h
  · rename_i hneedle
    split at h
    · rename_i hfront
      obtain ⟨rest, rfl⟩ := List.isPrefixOf_iff_prefix.mp hneedle
      rw [List.drop_left] at h
      simp only at h
      split at h
      · cases h
      · rename_i hwhole
        obtain rfl := Option.some.inj h
        set line := rest.takeWhile (· ≠ '\n'.toUInt8) with hline
        set blanks := line.takeWhile isSpaceOrTab with hblanks
        have hvalue : line.drop blanks.length = line.dropWhile isSpaceOrTab :=
          drop_takeWhile isSpaceOrTab line
        have hbehind : rest.drop line.length =
            rest.dropWhile (· ≠ '\n'.toUInt8) :=
          drop_takeWhile _ rest
        have hall : blanks ++ (line.drop blanks.length ++
            rest.drop line.length) = rest := by
          rw [hvalue, hbehind, ← List.append_assoc,
            List.takeWhile_append_dropWhile, hline,
            List.takeWhile_append_dropWhile]
        refine ⟨blanks, ?_, ?_, ?_, ?_, ?_, ?_, ?_⟩
        · rw [hall]
          rfl
        · intro character hmem
          exact List.mem_takeWhile_imp hmem
        · intro hmem
          have hin : newline ∈ line := List.mem_of_mem_drop hmem
          have hne := List.mem_takeWhile_imp hin
          revert hne
          decide
        · intro character hhead
          rw [hvalue] at hhead
          have hstop := List.head?_dropWhile_not isSpaceOrTab line
          rw [hhead] at hstop
          simpa using hstop
        · intro character hlast
          rw [List.getLast?_reverse] at hlast
          cases front with
          | nil => cases hlast
          | cons first front =>
            obtain rfl := Option.some.inj hlast
            by_cases hblank : isSpaceOrTab first = true
            · exact Or.inr hblank
            · left
              have hend : first = '\n'.toUInt8 := by
                simpa [hblank] using hfront
              exact hend
        · have hneedleLength : (needle macroName).length =
              8 + macroName.length := by
            rw [needle, List.length_append]
            rfl
          simp only [hneedleLength, List.length_reverse]
          omega
        · intro character hhead
          rw [hall, Option.mem_def] at hhead
          rw [hhead] at hwhole
          simpa using hwhole
    · cases h
  · cases h

theorem liesIn_of_mem_forEachDefineFrom {macroName front content : List UInt8}
    {visit : Visit} (h : visit ∈ forEachDefineFrom macroName front content) :
    ∃ blanks, visit.LiesIn macroName (front.reverse ++ content) blanks := by
  induction content generalizing front with
  | nil => cases h
  | cons character rest ih =>
    rcases List.mem_append.mp h with hhere | hlater
    · exact liesIn_of_visitAt (Option.mem_toList.mp hhere)
    · have htail := ih hlater
      rwa [List.reverse_cons, List.append_assoc, List.singleton_append]
        at htail

theorem liesIn_of_mem {macroName content : List UInt8} {visit : Visit}
    (h : visit ∈ forEachDefine content macroName) :
    ∃ blanks, visit.LiesIn macroName content blanks :=
  liesIn_of_mem_forEachDefineFrom h

theorem isPlain_of_isSpaceOrTab {character : UInt8}
    (h : isSpaceOrTab character = true) :
    IsPlain character ∧ isBlank character = true ∧
      isIdentifier character = false := by
  simp only [isSpaceOrTab, Bool.or_eq_true, decide_eq_true_eq] at h
  rcases h with rfl | rfl <;>
    exact ⟨⟨by decide, by decide, by decide, by decide, by decide⟩, by decide,
      by decide⟩

theorem joiner_after_before {visit : Visit} {macroName content blanks :
    List UInt8} (h : visit.LiesIn macroName content blanks) :
    joiner.after .plain (placed 0 visit.before) = .plain := by
  apply joiner_after_placed
  intro character hlast
  rcases h.before character hlast with rfl | hblank
  · exact ⟨by decide, by decide⟩
  · refine ⟨(isPlain_of_isSpaceOrTab hblank).1.1, ?_⟩
    rintro rfl
    revert hblank
    decide

theorem visibleLine_visit {visit : Visit} {macroName content blanks :
    List UInt8} (h : visit.LiesIn macroName content blanks) :
    visibleLine (visit.before.length + 8 + macroName.length)
        (blanks ++ (visit.line ++ visit.behind)) =
      blanks ++ visibleLine visit.valueStart (visit.line ++ visit.behind) := by
  rw [visibleLine_append, ← h.valueStart]
  intro character hmem
  exact (isPlain_of_isSpaceOrTab (h.blanks_only character hmem)).1

theorem directive_at_visit {visit : Visit} {macroName content blanks :
    List UInt8} (h : visit.LiesIn macroName content blanks)
    (hname : IsMacroName macroName)
    (hwhole : blanks = [] → ∀ character ∈ (visibleLine visit.valueStart
      (visit.line ++ visit.behind)).head?, isIdentifier character = false)
    (directive : Directive) :
    (directive ∈ directives content ∧ directive.offset = visit.before.length) ↔
      OpensDirective visit.before ∧
        directive = ⟨visit.before.length, macroName, trimmed
          (visibleLine visit.valueStart (visit.line ++ visit.behind))⟩ := by
  have hline := visibleLine_visit h
  have hblanks : ∀ character ∈ blanks, isBlank character = true :=
    fun character hmem =>
      (isPlain_of_isSpaceOrTab (h.blanks_only character hmem)).2.1
  have hnext : ∀ character ∈ (blanks ++
      visibleLine visit.valueStart (visit.line ++ visit.behind)).head?,
        isIdentifier character = false := by
    cases blanks with
    | nil => exact hwhole rfl
    | cons blank others =>
      intro character hhead
      obtain rfl := Option.some.inj hhead
      exact (isPlain_of_isSpaceOrTab (h.blanks_only _ (by simp))).2.2
  rw [← hline] at hnext
  have hat := directiveAt_define hname visit.before.length hnext
  rw [hline, trimmed_blanks hblanks] at hat
  rw [h.content_eq, mem_directives_at (joiner_after_before h), hat,
    Option.some_inj, eq_comm]

/-! ## What the readers accept -/

def isDigitOrDot (character : UInt8) : Bool :=
  isDigit character || character = '.'.toUInt8

/-- Digits and single dots, with a dot, from a digit to a digit. -/
structure IsDottedNumber (value : List UInt8) : Prop where
  characters : ∀ character ∈ value, isDigitOrDot character = true
  front : ∃ character ∈ value.head?, isDigit character = true
  back : ∃ character ∈ value.getLast?, isDigit character = true
  dot : '.'.toUInt8 ∈ value
  single : value.IsChain fun left right =>
    ¬(left = '.'.toUInt8 ∧ right = '.'.toUInt8)

/-- A decimal integer without a leading zero. -/
structure IsPlainInteger (value : List UInt8) : Prop where
  nonempty : value ≠ []
  digits : ∀ character ∈ value, isDigit character = true
  front : 1 < value.length → value.head? ≠ some '0'.toUInt8

theorem dottedToken_spec {dotAllowed : Bool} {line token : List UInt8}
    (h : dottedToken dotAllowed line = some token) :
    token = line.takeWhile isDigitOrDot ∧
      (dotAllowed = false → token.head? ≠ some '.'.toUInt8) ∧
      token.IsChain fun left right =>
        ¬(left = '.'.toUInt8 ∧ right = '.'.toUInt8) := by
  induction line generalizing dotAllowed token with
  | nil =>
    obtain rfl := Option.some.inj h
    simp
  | cons character rest ih =>
    rw [dottedToken] at h
    by_cases hdigit : isDigit character = true
    · rw [if_pos hdigit, Option.map_eq_some_iff] at h
      obtain ⟨token, htoken, rfl⟩ := h
      obtain ⟨htake, _, hchain⟩ := ih htoken
      have hne : character ≠ '.'.toUInt8 := by
        rintro rfl
        revert hdigit
        decide
      refine ⟨?_, ?_, ?_⟩
      · simp [isDigitOrDot, hdigit, ← htake]
      · intro _
        simpa using hne
      · rw [List.isChain_cons]
        exact ⟨fun _ _ hboth => hne hboth.1, hchain⟩
    · rw [if_neg hdigit] at h
      by_cases hdot : character = '.'.toUInt8
      · rw [if_pos hdot] at h
        by_cases hallowed : dotAllowed = true
        · rw [if_pos hallowed, Option.map_eq_some_iff] at h
          obtain ⟨token, htoken, rfl⟩ := h
          obtain ⟨htake, hfront, hchain⟩ := ih htoken
          refine ⟨?_, by simp [hallowed], ?_⟩
          · simp [isDigitOrDot, hdot, ← htake]
          · rw [List.isChain_cons]
            refine ⟨?_, hchain⟩
            rintro next hnext ⟨_, rfl⟩
            exact hfront rfl hnext
        · simp [hallowed] at h
      · rw [if_neg hdot] at h
        obtain rfl := Option.some.inj h
        simp [isDigitOrDot, hdigit, hdot]

/-- The digits and dots at the front of a value. -/
def Visit.bareToken (visit : Visit) : List UInt8 :=
  visit.line.takeWhile isDigitOrDot

theorem readBareDottedValue_spec {line value : List UInt8}
    (h : readBareDottedValue line = some value) :
    value = line.takeWhile isDigitOrDot ∧ IsDottedNumber value := by
  unfold readBareDottedValue at h
  split at h
  · cases h
  · rename_i token htoken
    obtain ⟨htake, hfront, hchain⟩ := dottedToken_spec htoken
    split at h
    · cases h
    · rename_i hbad
      split at h
      · obtain rfl := Option.some.inj h
        simp only [not_or, not_not] at hbad
        obtain ⟨hne, hdot, hback, _⟩ := hbad
        have hall : ∀ character ∈ token, isDigitOrDot character = true := by
          intro character hmem
          rw [htake] at hmem
          exact List.mem_takeWhile_imp hmem
        have hdigit : ∀ character ∈ token, character ≠ '.'.toUInt8 →
            isDigit character = true := by
          intro character hmem hother
          simpa [isDigitOrDot, hother] using hall character hmem
        refine ⟨htake, hall, ?_, ?_, hdot, hchain⟩
        · cases token with
          | nil => exact absurd rfl hne
          | cons first token =>
            exact ⟨first, rfl, hdigit first (by simp)
              (by simpa using hfront rfl)⟩
        · obtain ⟨front, last, rfl⟩ :=
            (List.eq_nil_or_concat token).resolve_left hne
          refine ⟨last, by simp, hdigit last (by simp) ?_⟩
          simpa using hback
      · cases h

theorem takeWhile_of_endsCleanly {rest : List UInt8}
    (h : bareValueEndsCleanly rest = true) :
    rest.takeWhile isDigitOrDot = [] := by
  cases rest with
  | nil => rfl
  | cons terminator rest =>
    apply List.takeWhile_cons_of_neg
    intro hdigit
    have hother : ¬((isSpaceOrTab terminator || terminator = '\r'.toUInt8) =
        true) ∧ terminator ≠ '/'.toUInt8 := by
      constructor
      · intro hblank
        simp only [isSpaceOrTab, Bool.or_eq_true, decide_eq_true_eq] at hblank
        rcases hblank with (rfl | rfl) | rfl <;> revert hdigit <;> decide
      · rintro rfl
        revert hdigit
        decide
    simp [bareValueEndsCleanly, hother] at h

theorem readBareIntegerValue_spec {line value : List UInt8}
    (h : readBareIntegerValue line = some value) :
    value = line.takeWhile isDigitOrDot ∧ IsPlainInteger value := by
  unfold readBareIntegerValue at h
  set token := line.takeWhile isDigit with htoken
  simp only at h
  split at h
  · cases h
  · rename_i hbad
    split at h
    · cases h
    · rename_i hzero
      split at h
      · rename_i hends
        obtain rfl := Option.some.inj h
        have hdigits : ∀ character ∈ token, isDigit character = true := by
          intro character hmem
          exact List.mem_takeWhile_imp hmem
        have hline : line = token ++ line.drop token.length := by
          rw [htoken, drop_takeWhile, List.takeWhile_append_dropWhile]
        refine ⟨?_, ?_, hdigits, ?_⟩
        · conv_rhs => rw [hline]
          rw [List.takeWhile_append_of_pos, takeWhile_of_endsCleanly hends,
            List.append_nil]
          intro character hmem
          simp [isDigitOrDot, hdigits character hmem]
        · exact fun hnil => hbad (Or.inl hnil)
        · exact fun hlong hfront => hzero ⟨hlong, hfront⟩
      · cases h

theorem readQuotedValue_spec {line value : List UInt8}
    (h : readQuotedValue line = some value) :
    value = (line.drop 1).takeWhile (· ≠ '"'.toUInt8) ∧
      '"'.toUInt8 ∉ value ∧
        ∃ rest, line = '"'.toUInt8 :: (value ++ '"'.toUInt8 :: rest) := by
  cases line with
  | nil => cases h
  | cons character rest =>
    simp only [readQuotedValue] at h
    split at h
    · rename_i hquoted
      obtain ⟨rfl, hlength⟩ := hquoted
      obtain rfl := Option.some.inj h
      have hsplit : rest.takeWhile (· ≠ '"'.toUInt8) ++
          rest.dropWhile (· ≠ '"'.toUInt8) = rest :=
        List.takeWhile_append_dropWhile
      cases hdrop : rest.dropWhile (· ≠ '"'.toUInt8) with
      | nil =>
        rw [hdrop, List.append_nil] at hsplit
        rw [hsplit] at hlength
        exact absurd hlength (lt_irrefl _)
      | cons quote behind =>
        have hquote := List.head?_dropWhile_not (· ≠ '"'.toUInt8) rest
        rw [hdrop] at hquote hsplit
        obtain rfl : quote = '"'.toUInt8 := by simpa using hquote
        refine ⟨rfl, ?_, behind, by rw [hsplit]⟩
        intro hmem
        have hne := List.mem_takeWhile_imp hmem
        revert hne
        decide
    · cases h

/-! ## A value and its directive -/

/-- Behind the digits and dots of a value nothing is left on its line but blanks
and comments. -/
def Visit.NothingBehind (visit : Visit) : Prop :=
  ∀ character ∈ visibleLine (visit.valueStart + visit.bareToken.length)
    (visit.line.drop visit.bareToken.length ++ visit.behind),
      isBlank character = true

def Visit.quotedText (visit : Visit) : List UInt8 :=
  (visit.line.drop 1).takeWhile (· ≠ '"'.toUInt8)

theorem isPlain_of_isDigitOrDot {character : UInt8}
    (h : isDigitOrDot character = true) :
    IsPlain character ∧ isBlank character = false := by
  simp only [isDigitOrDot, Bool.or_eq_true, decide_eq_true_eq] at h
  rcases h with hdigit | rfl
  · have hidentifier : isIdentifier character = true := by
      simp [isIdentifier, hdigit]
    exact ⟨isPlain_of_isIdentifier hidentifier,
      isBlank_of_isIdentifier hidentifier⟩
  · exact ⟨⟨by decide, by decide, by decide, by decide, by decide⟩, by decide⟩

/-- What the preprocessor reads at a line with a bare value. -/
theorem bare_directive_iff {visit : Visit} {macroName content : List UInt8}
    (hvisit : visit ∈ forEachDefine content macroName)
    (hname : IsMacroName macroName)
    (hfront : ∃ character ∈ visit.bareToken.head?, isDigit character = true) :
    (∃ directive ∈ directives content,
        directive.offset = visit.before.length ∧ directive.name = macroName ∧
          directive.replacement = visit.bareToken) ↔
      OpensDirective visit.before ∧ visit.NothingBehind := by
  obtain ⟨blanks, hlies⟩ := liesIn_of_mem hvisit
  have htoken : ∀ character ∈ visit.bareToken, isDigitOrDot character = true :=
    fun character hmem => List.mem_takeWhile_imp hmem
  have hline : visit.line ++ visit.behind = visit.bareToken ++
      (visit.line.drop visit.bareToken.length ++ visit.behind) := by
    rw [← List.append_assoc, Visit.bareToken, drop_takeWhile,
      List.takeWhile_append_dropWhile]
  obtain ⟨first, hfirst, hdigit⟩ := hfront
  have hne : visit.bareToken ≠ [] := by
    intro hnil
    rw [hnil] at hfirst
    cases hfirst
  have hvisible := visibleLine_append
    (fun character hmem => (isPlain_of_isDigitOrDot (htoken character hmem)).1)
    visit.valueStart
    (visit.line.drop visit.bareToken.length ++ visit.behind)
  rw [← hline] at hvisible
  -- a digit would belong to the name, so a blank stands between them
  have hat := directive_at_visit hlies hname fun hblanks => by
    have hlater := hlies.whole first (by
      rw [hblanks, List.nil_append, hline, List.head?_append]
      simp [Option.mem_def.mp hfirst])
    simp [isIdentifier, hdigit] at hlater
  have htrimmed : trimmed (visit.bareToken ++
      visibleLine (visit.valueStart + visit.bareToken.length)
        (visit.line.drop visit.bareToken.length ++ visit.behind)) =
          visit.bareToken ↔ visit.NothingBehind :=
    trimmed_append_eq_iff hne
      (fun character hmem => (isPlain_of_isDigitOrDot
        (htoken character (List.mem_of_mem_head? hmem))).2)
      (fun character hmem => (isPlain_of_isDigitOrDot
        (htoken character (List.mem_of_mem_getLast? hmem))).2)
  rw [hvisible] at hat
  constructor
  · rintro ⟨directive, hmem, hoffset, _, hreplacement⟩
    obtain ⟨hopens, rfl⟩ := (hat directive).mp ⟨hmem, hoffset⟩
    exact ⟨hopens, htrimmed.mp hreplacement⟩
  · rintro ⟨hopens, hbehind⟩
    obtain ⟨hmem, hoffset⟩ := (hat _).mpr ⟨hopens, rfl⟩
    exact ⟨_, hmem, hoffset, rfl, htrimmed.mpr hbehind⟩

/-- What the preprocessor reads at a line with a quoted value. -/
theorem quoted_directive_iff {visit : Visit} {macroName content value :
    List UInt8} (hvisit : visit ∈ forEachDefine content macroName)
    (hname : IsMacroName macroName)
    (hvalue : readQuotedValue visit.line = some value) :
    (∃ directive ∈ directives content,
        directive.offset = visit.before.length ∧ directive.name = macroName ∧
          stringLiteral directive.replacement = some value) ↔
      OpensDirective visit.before ∧ EscapesPaired value := by
  obtain ⟨blanks, hlies⟩ := liesIn_of_mem hvisit
  obtain ⟨_, hquote, rest, hline⟩ := readQuotedValue_spec hvalue
  have htext : ∀ character ∈ value,
      character ≠ newline ∧ character ≠ '"'.toUInt8 := by
    intro character hmem
    constructor
    · rintro rfl
      exact hlies.line (by simp [hline, hmem])
    · rintro rfl
      exact hquote hmem
  obtain ⟨behind, hvisible⟩ :=
    visibleLine_quoted htext visit.valueStart (rest ++ visit.behind)
  have hsame : visit.line ++ visit.behind =
      '"'.toUInt8 :: (value ++ '"'.toUInt8 :: (rest ++ visit.behind)) := by
    simp [hline]
  rw [← hsame] at hvisible
  have hat := directive_at_visit hlies hname fun _ character hhead => by
    rw [hvisible] at hhead
    obtain rfl := Option.some.inj hhead
    decide
  have hparts : '"'.toUInt8 :: (value ++ '"'.toUInt8 :: behind) =
      ('"'.toUInt8 :: (value ++ ['"'.toUInt8])) ++ behind := by
    simp
  have htrimmed : trimmed
      (('"'.toUInt8 :: (value ++ ['"'.toUInt8])) ++ behind) =
        ('"'.toUInt8 :: (value ++ ['"'.toUInt8])) ++
          (behind.reverse.dropWhile isBlank).reverse := by
    apply trimmed_append (by simp)
    · intro character hmem
      obtain rfl := Option.some.inj hmem
      decide
    · intro character hmem
      rw [← List.cons_append, List.getLast?_concat] at hmem
      obtain rfl := Option.some.inj hmem
      decide
  have hliteral : stringLiteral (trimmed
      ('"'.toUInt8 :: (value ++ '"'.toUInt8 :: behind))) = some value ↔
        EscapesPaired value := by
    rw [hparts, htrimmed, ← literalText_eq_iff hquote
      (behind.reverse.dropWhile isBlank).reverse]
    simp [stringLiteral]
  rw [hvisible] at hat
  constructor
  · rintro ⟨directive, hmem, hoffset, _, hreplacement⟩
    obtain ⟨hopens, rfl⟩ := (hat directive).mp ⟨hmem, hoffset⟩
    exact ⟨hopens, hliteral.mp hreplacement⟩
  · rintro ⟨hopens, hescapes⟩
    obtain ⟨hmem, hoffset⟩ := (hat _).mpr ⟨hopens, rfl⟩
    exact ⟨_, hmem, hoffset, rfl, hliteral.mpr hescapes⟩

def readVisit? (content macroName : List UInt8) (form : MacroValueForm) :
    Option Visit :=
  (forEachDefine content macroName).find? fun visit =>
    (readMacroValue form visit.line).isSome

/-- What the replacement of a directive says in this form. -/
def Denotes (form : MacroValueForm) (replacement value : List UInt8) : Prop :=
  match form with
  | .quotedString => stringLiteral replacement = some value
  | .bareDotted => replacement = value ∧ IsDottedNumber value

/-- A value comes from a directive of the macro, and is what it says. -/
def TakesFromDirective (content macroName : List UInt8)
    (form : MacroValueForm) : Prop :=
  ∀ value, extractMacroValue content macroName form = some value →
    ∃ visit, readVisit? content macroName form = some visit ∧
      readMacroValue form visit.line = some value ∧
        ∃ directive ∈ directives content,
          directive.offset = visit.before.length ∧ directive.name = macroName ∧
              Denotes form directive.replacement value

/-- To the preprocessor a line is what the walk takes it for. -/
def SeenAsRead (form : MacroValueForm) (visit : Visit) : Prop :=
  OpensDirective visit.before ∧
    match form with
    | .quotedString => EscapesPaired visit.quotedText
    | .bareDotted => visit.NothingBehind

theorem extractMacroValue_eq (content macroName : List UInt8)
    (form : MacroValueForm) :
    extractMacroValue content macroName form =
      (readVisit? content macroName form).bind fun visit =>
        readMacroValue form visit.line := by
  unfold extractMacroValue readVisit?
  induction forEachDefine content macroName with
  | nil => rfl
  | cons visit visits ih =>
    cases hread : readMacroValue form visit.line with
    | none => simp [hread, ih]
    | some value => simp [hread]

theorem directive_iff_seenAsRead {visit : Visit} {macroName content value :
    List UInt8} {form : MacroValueForm}
    (hvisit : visit ∈ forEachDefine content macroName)
    (hname : IsMacroName macroName)
    (hvalue : readMacroValue form visit.line = some value) :
    (∃ directive ∈ directives content,
        directive.offset = visit.before.length ∧ directive.name = macroName ∧
          Denotes form directive.replacement value) ↔
      SeenAsRead form visit := by
  cases form with
  | quotedString =>
    have hsame : value = visit.quotedText := (readQuotedValue_spec hvalue).1
    have hiff := quoted_directive_iff hvisit hname hvalue
    rw [SeenAsRead, ← hsame]
    exact hiff
  | bareDotted =>
    obtain ⟨htoken, hdotted⟩ := readBareDottedValue_spec hvalue
    obtain rfl : value = visit.bareToken := htoken
    have hiff := bare_directive_iff hvisit hname hdotted.front
    rw [SeenAsRead, ← hiff]
    simp only [Denotes, hdotted, and_true]

theorem takesFromDirective_iff (content : List UInt8) {macroName : List UInt8}
    (hname : IsMacroName macroName) (form : MacroValueForm) :
    TakesFromDirective content macroName form ↔
      ∀ visit, readVisit? content macroName form = some visit →
        SeenAsRead form visit := by
  constructor
  · intro htakes visit hvisit
    have hsome := List.find?_some
      (p := fun other : Visit => (readMacroValue form other.line).isSome) hvisit
    obtain ⟨value, hvalue⟩ := Option.isSome_iff_exists.mp hsome
    have hextract : extractMacroValue content macroName form = some value := by
      rw [extractMacroValue_eq, hvisit]
      exact hvalue
    obtain ⟨other, hother, hread, hdirective⟩ := htakes value hextract
    obtain rfl := Option.some.inj (hvisit.symm.trans hother)
    exact (directive_iff_seenAsRead (List.mem_of_find?_eq_some hvisit) hname
      hread).mp hdirective
  · intro hseen value hextract
    rw [extractMacroValue_eq] at hextract
    obtain ⟨visit, hvisit, hread⟩ := Option.bind_eq_some_iff.mp hextract
    exact ⟨visit, hvisit, hread,
      (directive_iff_seenAsRead (List.mem_of_find?_eq_some hvisit) hname
        hread).mpr (hseen visit hvisit)⟩

/-! ## Split values -/

/-- A macro has one directive, which the walk reads, and it says this part. -/
def SoleDirective (content macroName part : List UInt8) : Prop :=
  ∃ visit, forEachDefine content macroName = [visit] ∧
    readBareIntegerValue visit.line = some part ∧ IsPlainInteger part ∧
      ∃ directive ∈ directives content, directive.offset = visit.before.length ∧
          directive.name = macroName ∧ directive.replacement = part ∧
            ∀ other ∈ directives content, other.name = macroName →
              other = directive

/-- A split version is made of the sole directives of its macros. -/
def TakesSplitFromDirectives (content : List UInt8)
    (signature : SplitVersionSignature) : Prop :=
  ∀ relativeFile found,
    readSplitVersion content signature relativeFile = some found →
      ∃ parts, found.version = ['.'.toUInt8].intercalate parts ∧
        List.Forall₂ (fun partMacro part =>
          SoleDirective content (bytes partMacro) part)
          signature.partMacros parts

/-- The walk reads one line for every part. -/
def SoleVisits (content : List UInt8) (signature : SplitVersionSignature) :
    Prop :=
  ∀ partMacro ∈ signature.partMacros,
    ∃ visit, forEachDefine content (bytes partMacro) = [visit] ∧
      (readBareIntegerValue visit.line).isSome = true

/-- To the preprocessor the line of a part is what the walk takes it for, and no
other line defines the macro. -/
def SeenAsSole (content macroName : List UInt8) (visit : Visit) : Prop :=
  OpensDirective visit.before ∧ visit.NothingBehind ∧
    ∀ directive ∈ directives content, directive.name = macroName →
      directive.offset = visit.before.length

theorem directive_unique_at {visit : Visit} {macroName content : List UInt8}
    (hvisit : visit ∈ forEachDefine content macroName)
    {directive other : Directive} (hdirective : directive ∈ directives content)
    (hother : other ∈ directives content)
    (hplace : directive.offset = visit.before.length)
    (hother_place : other.offset = visit.before.length) :
    other = directive := by
  obtain ⟨blanks, hlies⟩ := liesIn_of_mem hvisit
  have hplain := joiner_after_before hlies
  rw [hlies.content_eq] at hdirective hother
  have hfirst := ((mem_directives_at hplain _ _).mp ⟨hdirective, hplace⟩).2
  have hsecond := ((mem_directives_at hplain _ _).mp ⟨hother, hother_place⟩).2
  exact Option.some.inj (hsecond.symm.trans hfirst)

theorem soleDirective_iff {visit : Visit} {macroName content part : List UInt8}
    (hsole : forEachDefine content macroName = [visit])
    (hname : IsMacroName macroName)
    (hpart : readBareIntegerValue visit.line = some part) :
    SoleDirective content macroName part ↔
      SeenAsSole content macroName visit := by
  have hvisit : visit ∈ forEachDefine content macroName := by
    simp [hsole]
  obtain ⟨htoken, hinteger⟩ := readBareIntegerValue_spec hpart
  obtain rfl : part = visit.bareToken := htoken
  have hfront : ∃ character ∈ visit.bareToken.head?,
      isDigit character = true := by
    cases htoken : visit.bareToken with
    | nil => exact absurd htoken hinteger.nonempty
    | cons first rest =>
      exact ⟨first, rfl, hinteger.digits first (by simp [htoken])⟩
  have hiff := bare_directive_iff hvisit hname hfront
  constructor
  · rintro ⟨other, hother, _, _, directive, hmem, hoffset, hdname,
      hreplacement, hunique⟩
    obtain rfl : other = visit := by simpa [hsole] using hother.symm
    obtain ⟨hopens, hbehind⟩ :=
      hiff.mp ⟨directive, hmem, hoffset, hdname, hreplacement⟩
    refine ⟨hopens, hbehind, ?_⟩
    intro further hfurther hfname
    rw [hunique further hfurther hfname, hoffset]
  · rintro ⟨hopens, hbehind, hplaces⟩
    obtain ⟨directive, hmem, hoffset, hdname, hreplacement⟩ :=
      hiff.mpr ⟨hopens, hbehind⟩
    refine ⟨visit, hsole, hpart, hinteger, directive, hmem, hoffset, hdname,
      hreplacement, ?_⟩
    intro other hother honame
    exact directive_unique_at hvisit hmem hother hoffset
      (hplaces other hother honame)

theorem mapM_eq_some_iff {α β : Type} {read : α → Option β} {items : List α}
    {results : List β} :
    items.mapM read = some results ↔
      List.Forall₂ (fun item result => read item = some result) items
        results := by
  induction items generalizing results with
  | nil => cases results <;> simp
  | cons item items ih =>
    rw [List.mapM_cons]
    cases hitem : read item with
    | none => cases results <;> simp [hitem]
    | some first =>
      cases hitems : items.mapM read with
      | none =>
        cases results with
        | nil => simp
        | cons result results =>
          rw [List.forall₂_cons, ← ih, hitems]
          simp
      | some others =>
        cases results with
        | nil => simp
        | cons result results =>
          rw [List.forall₂_cons, ← ih, hitems, hitem]
          simp

theorem extractSoleInteger_eq_some_iff {content macroName part : List UInt8} :
    extractSoleInteger content macroName = some part ↔
      ∃ visit, forEachDefine content macroName = [visit] ∧
        readBareIntegerValue visit.line = some part := by
  unfold extractSoleInteger
  split
  · rename_i visit hvisit
    simp [hvisit]
  · rename_i hother
    constructor
    · intro h
      cases h
    · rintro ⟨visit, hvisit, _⟩
      exact absurd hvisit (hother visit)

theorem forall₂_soleDirective_iff {content : List UInt8}
    {signature : SplitVersionSignature}
    (hnames : ∀ partMacro ∈ signature.partMacros,
      IsMacroName (bytes partMacro)) {macros : List String}
    (hmacros : ∀ partMacro ∈ macros, partMacro ∈ signature.partMacros)
    {parts : List (List UInt8)}
    (hparts : List.Forall₂ (fun partMacro part =>
      extractSoleInteger content (bytes partMacro) = some part) macros parts) :
    List.Forall₂ (fun partMacro part =>
        SoleDirective content (bytes partMacro) part) macros parts ↔
      ∀ partMacro ∈ macros, ∀ visit ∈ forEachDefine content (bytes partMacro),
          SeenAsSole content (bytes partMacro) visit := by
  induction hparts with
  | nil => simp
  | @cons partMacro part macros parts hpart _ ih =>
    obtain ⟨visit, hsole, hread⟩ := extractSoleInteger_eq_some_iff.mp hpart
    have hname := hnames partMacro (hmacros partMacro (by simp))
    have hiff := soleDirective_iff hsole hname hread
    rw [List.forall₂_cons, hiff,
      ih fun other hmem => hmacros other (by simp [hmem])]
    simp [hsole]

theorem exists_of_forall₂ {α β : Type} {related : α → β → Prop}
    {items : List α} {results : List β}
    (h : List.Forall₂ related items results) :
    ∀ item ∈ items, ∃ result, related item result := by
  induction h with
  | nil => simp
  | cons hfirst _ ih =>
    simp only [List.mem_cons, forall_eq_or_imp]
    exact ⟨⟨_, hfirst⟩, ih⟩

theorem soleVisits_iff {content : List UInt8}
    {signature : SplitVersionSignature} :
    SoleVisits content signature ↔ ∃ parts, List.Forall₂ (fun partMacro part =>
        extractSoleInteger content (bytes partMacro) = some part)
          signature.partMacros parts := by
  constructor
  · intro hvisits
    refine ⟨signature.partMacros.map fun partMacro =>
      (extractSoleInteger content (bytes partMacro)).getD [], ?_⟩
    rw [List.forall₂_map_right_iff, List.forall₂_same]
    intro partMacro hmem
    obtain ⟨visit, hsole, hsome⟩ := hvisits partMacro hmem
    obtain ⟨part, hpart⟩ := Option.isSome_iff_exists.mp hsome
    have hextract := extractSoleInteger_eq_some_iff.mpr ⟨visit, hsole, hpart⟩
    rw [hextract, Option.getD_some]
  · rintro ⟨parts, hparts⟩ partMacro hmem
    obtain ⟨part, hpart⟩ := exists_of_forall₂ hparts partMacro hmem
    obtain ⟨visit, hsole, hread⟩ := extractSoleInteger_eq_some_iff.mp hpart
    exact ⟨visit, hsole, by simp [hread]⟩

theorem takesSplitFromDirectives_iff (content : List UInt8)
    {signature : SplitVersionSignature}
    (hnames : ∀ partMacro ∈ signature.partMacros,
      IsMacroName (bytes partMacro)) :
    TakesSplitFromDirectives content signature ↔ (SoleVisits content signature →
        ∀ partMacro ∈ signature.partMacros,
          ∀ visit ∈ forEachDefine content (bytes partMacro),
            SeenAsSole content (bytes partMacro) visit) := by
  have hiff := fun {parts} => @forall₂_soleDirective_iff content signature
    hnames signature.partMacros (fun _ hmem => hmem) parts
  constructor
  · intro htakes hvisits
    obtain ⟨parts, hparts⟩ := soleVisits_iff.mp hvisits
    have hread := mapM_eq_some_iff.mpr hparts
    obtain ⟨parts', _, hsole⟩ := htakes FsPath.empty _ (by
      rw [readSplitVersion, hread]
      rfl)
    have hparts' : List.Forall₂ (fun partMacro part =>
        extractSoleInteger content (bytes partMacro) = some part)
          signature.partMacros parts' :=
      hsole.imp fun partMacro part hpart => by
        obtain ⟨visit, hvisit, hread, _⟩ := hpart
        exact extractSoleInteger_eq_some_iff.mpr ⟨visit, hvisit, hread⟩
    exact (hiff hparts').mp hsole
  · intro hseen relativeFile found hfound
    obtain ⟨parts, hmapM, rfl⟩ := Option.map_eq_some_iff.mp hfound
    have hparts := mapM_eq_some_iff.mp hmapM
    exact ⟨parts, rfl,
      (hiff hparts).mpr (hseen (soleVisits_iff.mpr ⟨parts, hparts⟩))⟩

/-- A row of one of the three tables. -/
inductive SignatureRow where
  | single (form : MacroValueForm) (signature : VersionHeaderSignature)
  | split (signature : SplitVersionSignature)

def signatureRows : List SignatureRow :=
  versionHeaderSignatures.map (.single .quotedString) ++
    (bareDottedVersionSignatures.map (.single .bareDotted) ++
      splitVersionSignatures.map .split)

namespace SignatureRow

def macroNames : SignatureRow → List String
  | single _ signature => [signature.versionMacro]
  | split signature => signature.partMacros

/-- The version that a row reports comes from directives, and is what they
say. -/
def TakesFromDirectives (row : SignatureRow) (content : List UInt8) : Prop :=
  match row with
  | single form signature =>
    TakesFromDirective content (bytes signature.versionMacro) form
  | split signature => TakesSplitFromDirectives content signature

/-- To the preprocessor, the lines that a row is read from are directives, with
nothing else in them, and for the parts of a version there are no others. -/
def ReadsDirectives (row : SignatureRow) (content : List UInt8) : Prop :=
  match row with
  | single form signature =>
    ∀ visit, readVisit? content (bytes signature.versionMacro) form =
      some visit → SeenAsRead form visit
  | split signature =>
    SoleVisits content signature → ∀ partMacro ∈ signature.partMacros,
        ∀ visit ∈ forEachDefine content (bytes partMacro),
          SeenAsSole content (bytes partMacro) visit

end SignatureRow

theorem isMacroName_of_mem {row : SignatureRow} (hrow : row ∈ signatureRows) :
    ∀ name ∈ row.macroNames, IsMacroName (bytes name) := by
  have hall : (signatureRows.all fun row => row.macroNames.all fun name =>
      !(bytes name).isEmpty && ((bytes name).all isIdentifier &&
        (bytes name).head?.all (!isDigit ·))) = true := by
    decide +kernel
  intro name hname
  have hrows := List.all_eq_true.mp (List.all_eq_true.mp hall row hrow)
    name hname
  rw [Bool.and_eq_true, Bool.and_eq_true, List.all_eq_true] at hrows
  obtain ⟨hne, hcharacters, hfront⟩ := hrows
  exact ⟨by simpa using hne, hcharacters, hfront⟩

theorem takesFromDirectives_iff_of_mem {row : SignatureRow}
    (hrow : row ∈ signatureRows) (content : List UInt8) :
    row.TakesFromDirectives content ↔ row.ReadsDirectives content := by
  have hnames := isMacroName_of_mem hrow
  cases row with
  | single form signature =>
    exact takesFromDirective_iff content
      (hnames signature.versionMacro (by simp [SignatureRow.macroNames])) form
  | split signature => exact takesSplitFromDirectives_iff content hnames

/-- The text of a header is that of the file, or the whole lines of what was
read. -/
def IsWholeLines (fileRead : BoundedFileRead) (content : List UInt8) : Prop :=
  content <+: fileRead.bytes ∧ (fileRead.truncated = true →
      ∀ character ∈ content.getLast?, character = newline) ∧
    (fileRead.truncated = false → content = fileRead.bytes)

theorem isWholeLines_headerText {fileRead : BoundedFileRead}
    {content : List UInt8} (h : headerText fileRead = some content) :
    IsWholeLines fileRead content := by
  unfold headerText at h
  split at h
  · obtain rfl := Option.some.inj h
    cases htruncated : fileRead.truncated with
    | false => simp [IsWholeLines, htruncated]
    | true =>
      rw [if_pos rfl]
      refine ⟨?_, ?_, by simp [htruncated]⟩
      · have hsuffix := List.reverse_prefix.mpr (List.dropWhile_suffix
          (· ≠ '\n'.toUInt8) (l := fileRead.bytes.reverse))
        rwa [List.reverse_reverse] at hsuffix
      · intro _ character hlast
        rw [List.getLast?_reverse, Option.mem_def] at hlast
        have hstop := List.head?_dropWhile_not (· ≠ '\n'.toUInt8)
          fileRead.bytes.reverse
        rw [hlast] at hstop
        have hend : character = '\n'.toUInt8 := by simpa using hstop
        exact hend
  · cases h

def SignatureRow.versionMatch (row : SignatureRow) (content : List UInt8)
    (relativeFile : FsPath) : Option VersionMatch :=
  match row with
  | .single form signature =>
    readSingleVersion content signature form relativeFile
  | .split signature => readSplitVersion content signature relativeFile

/-- The form of the versions of a row. -/
def SignatureRow.Writes (row : SignatureRow) (version : List UInt8) : Prop :=
  match row with
  | .single .quotedString _ => '"'.toUInt8 ∉ version
  | .single .bareDotted _ => IsDottedNumber version
  | .split _ => ∃ parts, version = ['.'.toUInt8].intercalate parts ∧
      parts.length = 3 ∧ ∀ part ∈ parts, IsPlainInteger part

/-- A row is for the headers of its name; the folder names the library, where
the macro alone is not enough. -/
def SignatureRow.Admits (row : SignatureRow) (folderKey : List Char)
    (file : FsPath) : Prop :=
  match row with
  | .single form signature => file.filename = signature.headerFilename ∧
      (form = .bareDotted → folderNamesLibrary folderKey signature.canonicalName)
  | .split signature => file.filename = signature.headerFilename ∧
      folderNamesLibrary folderKey signature.canonicalName

theorem writes_of_versionMatch {row : SignatureRow} {content : List UInt8}
    {relativeFile : FsPath} {found : VersionMatch}
    (h : row.versionMatch content relativeFile = some found) :
    row.Writes found.version ∧ found.relativePath = relativeFile := by
  cases row with
  | single form signature =>
    obtain ⟨value, hvalue, rfl⟩ := Option.map_eq_some_iff.mp h
    obtain ⟨visit, -, hread⟩ := List.exists_of_findSome?_eq_some hvalue
    cases form with
    | quotedString => exact ⟨(readQuotedValue_spec hread).2.1, rfl⟩
    | bareDotted => exact ⟨(readBareDottedValue_spec hread).2, rfl⟩
  | split signature =>
    obtain ⟨parts, hparts, rfl⟩ := Option.map_eq_some_iff.mp h
    have hall := mapM_eq_some_iff.mp hparts
    refine ⟨⟨parts, rfl, hall.length_eq.symm, ?_⟩, rfl⟩
    refine ((List.forall₂_and_left (p := IsPlainInteger) _ _).mp
      (hall.flip.imp fun part partMacro hpart => ⟨?_, hpart⟩)).1
    obtain ⟨visit, -, hread⟩ := extractSoleInteger_eq_some_iff.mp hpart
    exact (readBareIntegerValue_spec hread).2

/-- A match is what a row for the header says of whole lines of it, in the form
of the versions of the row. -/
theorem findVersionHeaderMatch_spec {contents : FsPath → Option (List UInt8)}
    {maxHeaderBytes : Nat} {vendorRoot : FsPath} {files : List FsPath}
    {found : VersionMatch}
    (h : findVersionHeaderMatch contents maxHeaderBytes vendorRoot files =
      some found) :
    found.relativePath ∈ files ∧ ∃ row ∈ signatureRows, ∃ content,
      IsWholeLines (readFileBounded (contents found.relativePath)
        maxHeaderBytes) content ∧
      row.Admits (identityKey vendorRoot.filename) found.relativePath ∧
      row.versionMatch content found.relativePath = some found ∧
      row.Writes found.version := by
  obtain ⟨file, hfile, hmatch⟩ := List.exists_of_findSome?_eq_some h
  obtain ⟨row, hrow, hadmits, content, hcontent, hfound⟩ :
      ∃ row ∈ signatureRows, row.Admits (identityKey vendorRoot.filename) file ∧
        ∃ content, headerText (readFileBounded (contents file)
          maxHeaderBytes) = some content ∧
            row.versionMatch content file = some found := by
    simp only [matchHeader, Option.or_eq_some_iff] at hmatch
    rcases hmatch with htable | ⟨-, htable | ⟨-, htable⟩⟩
    all_goals
      obtain ⟨signature, hmem, hfound⟩ :=
        List.exists_of_findSome?_eq_some htable
      split_ifs at hfound with hgates
      obtain ⟨content, hcontent, hfound⟩ := Option.bind_eq_some_iff.mp hfound
    · exact ⟨.single .quotedString signature, by simp [signatureRows, hmem],
        ⟨by_contra ‹_›, nofun⟩, content, hcontent, hfound⟩
    · exact ⟨.single .bareDotted signature, by simp [signatureRows, hmem],
        ⟨by_contra ‹_›, by simp_all⟩, content, hcontent, hfound⟩
    · exact ⟨.split signature, by simp [signatureRows, hmem],
        by simpa [SignatureRow.Admits] using hgates, content, hcontent, hfound⟩
  obtain ⟨hwrites, rfl⟩ := writes_of_versionMatch hfound
  exact ⟨hfile, row, hrow, content, isWholeLines_headerText hcontent, hadmits,
    hfound, hwrites⟩

/-- A header gives a row no version but those of its directives exactly when the
lines that the row is read from are directives to the preprocessor. -/
theorem takesFromDirectives_iff {row : SignatureRow}
    (hrow : row ∈ signatureRows) (fileRead : BoundedFileRead) :
    (∀ content, headerText fileRead = some content →
        IsWholeLines fileRead content ∧ row.TakesFromDirectives content) ↔
      ∀ content, headerText fileRead = some content →
        row.ReadsDirectives content := by
  constructor
  · intro htakes content hcontent
    exact (takesFromDirectives_iff_of_mem hrow content).mp
      (htakes content hcontent).2
  · intro hreads content hcontent
    exact ⟨isWholeLines_headerText hcontent,
      (takesFromDirectives_iff_of_mem hrow content).mpr
        (hreads content hcontent)⟩

def uthashRow : SignatureRow :=
  .single .bareDotted ⟨"uthash", "uthash.h", "UTHASH_VERSION"⟩

def uthashHeader : BoundedFileRead where
  readable := true
  bytes := bytes "/* a\n */ \n#define UTHASH_VERSION 2.4.0 // b\n"

theorem takesFromDirectives_iff_uthash :
    IsWholeLines uthashHeader uthashHeader.bytes ∧
      uthashRow.TakesFromDirectives uthashHeader.bytes := by
  have huthash : uthashRow ∈ signatureRows := by
    simp [uthashRow, signatureRows, bareDottedVersionSignatures]
  apply (takesFromDirectives_iff huthash uthashHeader).mpr ?_ _ rfl
  intro content hcontent visit hvisit
  obtain rfl := Option.some.inj hcontent
  have hexpected : readVisit? uthashHeader.bytes (bytes "UTHASH_VERSION")
      .bareDotted =
        some ⟨bytes "/* a\n */ \n", 33, bytes "2.4.0 // b", bytes "\n"⟩ := by
    decide +kernel
  obtain rfl := Option.some.inj (hexpected.symm.trans hvisit)
  refine ⟨⟨by decide +kernel, ?_⟩, ?_⟩
  · unfold AtFront
    decide +kernel
  · simp only [Visit.NothingBehind]
    decide +kernel

theorem findVersionHeaderMatch_uthash :
    ∃ found : VersionMatch, found.version = bytes "2.4.0" ∧
      ∃ row ∈ signatureRows,
        row.Admits "uthash".toList (.ofString "deps/uthash/uthash.h") ∧
          row.Writes found.version := by
  have hmatch : (findVersionHeaderMatch (fun _ => some uthashHeader.bytes) 4096
      (.ofString "deps/uthash") [.ofString "deps/uthash/uthash.h"]).map
        VersionMatch.version = some (bytes "2.4.0") := by
    decide +kernel
  obtain ⟨found, hfound, hversion⟩ := Option.map_eq_some_iff.mp hmatch
  obtain ⟨hfile, row, hrow, content, -, hadmits, -, hwrites⟩ :=
    findVersionHeaderMatch_spec hfound
  rw [List.mem_singleton.mp hfile] at hadmits
  exact ⟨found, hversion, row, hrow, hadmits, hwrites⟩

/-- The lines of a comment are read as if they were none. -/
def commentedHeader : BoundedFileRead where
  readable := true
  bytes := bytes "/*\n#define UTHASH_VERSION 2.4.0\n*/\n"

theorem not_takesFromDirectives_commented :
    ¬∀ row ∈ signatureRows, ∀ fileRead : BoundedFileRead, ∀ content,
      headerText fileRead = some content →
        IsWholeLines fileRead content ∧ row.TakesFromDirectives content := by
  intro hall
  have huthash : uthashRow ∈ signatureRows := by
    simp [uthashRow, signatureRows, bareDottedVersionSignatures]
  have htakes : TakesFromDirective commentedHeader.bytes
      (bytes "UTHASH_VERSION") .bareDotted :=
    (hall uthashRow huthash commentedHeader commentedHeader.bytes rfl).2
  have hextract : extractMacroValue commentedHeader.bytes
      (bytes "UTHASH_VERSION") .bareDotted = some (bytes "2.4.0") := by
    decide +kernel
  have hnone : directives commentedHeader.bytes = [] := by
    decide +kernel
  obtain ⟨_, _, _, directive, hmem, _⟩ := htakes _ hextract
  rw [hnone] at hmem
  cases hmem

end Bomwerk.Heuristics.VersionHeader
