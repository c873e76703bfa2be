import Bomwerk.Ci.WorkflowDocument
import Bomwerk.Core.TextPieces

/-!
# Lines that are read as `uses` entries

What the text of a line must look like to be read as one, and which lines of a
document look like that.
-/

namespace Bomwerk.Ci.GithubActions

open Bomwerk.Core Bomwerk.Support

/-- The scan takes the line for a `uses` entry. -/
def LineReading.isUses (reading : LineReading) : Bool :=
  reading.usesValue?.isSome

/-! ## The content of a line -/

/-- The spellings of the key that the scan knows. -/
def usesScalars : List Scalar :=
  [.plain usesKey, .singleQuoted usesKey,
    .doubleQuoted (usesKey.map QuotedPiece.plain)]

theorem mem_usesKey {c : Char} (h : c ∈ usesKey) :
    c = 'u' ∨ c = 's' ∨ c = 'e' := by
  simpa [usesKey, or_comm, or_left_comm] using h

theorem mem_usesScalars_text {spelling : List Char}
    (h : spelling ∈ usesScalars.map Scalar.text) :
    spelling = "uses".toList ∨ spelling = "'uses'".toList ∨
      spelling = "\"uses\"".toList := by
  simpa [usesScalars, Scalar.text, Scalar.doubled, usesKey,
    QuotedPiece.text] using h

theorem isSolid_uses {spelling : List Char}
    (h : spelling ∈ usesScalars.map Scalar.text) : IsSolid spelling := by
  rcases mem_usesScalars_text h with rfl | rfl | rfl
  · exact ⟨⟨'u', rfl, rfl⟩, ⟨'s', rfl, rfl⟩⟩
  · exact ⟨⟨'\'', rfl, rfl⟩, ⟨'\'', rfl, rfl⟩⟩
  · exact ⟨⟨'"', rfl, rfl⟩, ⟨'"', rfl, rfl⟩⟩

/-- The content begins with the key and the colon behind it. -/
structure StartsUses (content spelling blanks rest : List Char) : Prop where
  spelling_mem : spelling ∈ usesScalars.map Scalar.text
  blanks_blank : AllBlank blanks
  content_eq : content = spelling ++ (blanks ++ ':' :: rest)
  separates : rest = [] ∨ rest.head? = some ' '

theorem mem_usesScalars_of_unquoted {text : List Char}
    (h : YamlSubset.unquoted text = usesKey) :
    text ∈ usesScalars.map Scalar.text := by
  rw [YamlSubset.unquoted.eq_def] at h
  split at h
  · rename_i first second rest
    split_ifs at h with hquote
    · obtain ⟨hfirst, hlast⟩ := hquote
      obtain ⟨front, hfront⟩ := List.getLast?_eq_some_iff.mp hlast
      rw [hfront, List.dropLast_concat] at h
      rw [hfront, h]
      rw [YamlSubset.isQuote, decide_eq_true_eq] at hfirst
      rcases hfirst with rfl | rfl
      · decide
      · decide
    · rw [h]
      decide
  · rw [h]
    decide

theorem splitOutsideQuotes_stops
    {stop : Option Char → Char → List Char → Bool}
    {openQuote previous : Option Char} {text front rest : List Char} {c : Char}
    (h : YamlSubset.splitOutsideQuotes stop openQuote previous text =
      (front, c :: rest)) :
    ∃ previous, stop previous c rest = true := by
  fun_induction YamlSubset.splitOutsideQuotes stop openQuote previous text
    generalizing front with
  | case1 => cases h
  | case2 => cases h
  | case3 =>
    rename_i hsplit ih
    obtain ⟨-, rfl⟩ := Prod.mk.inj h
    exact ih hsplit
  | case4 =>
    rename_i hsplit ih
    obtain ⟨-, rfl⟩ := Prod.mk.inj h
    exact ih hsplit
  | case5 =>
    rename_i hsplit ih
    obtain ⟨-, rfl⟩ := Prod.mk.inj h
    exact ih hsplit
  | case6 previous _ _ _ hstop =>
    obtain ⟨-, hcons⟩ := Prod.mk.inj h
    obtain ⟨rfl, rfl⟩ := List.cons.inj hcons
    exact ⟨previous, hstop⟩
  | case7 =>
    rename_i hsplit ih
    obtain ⟨-, rfl⟩ := Prod.mk.inj h
    exact ih hsplit

/-- A spelling of the key is passed over as a whole. -/
theorem splitOutsideQuotes_uses
    {stop : Option Char → Char → List Char → Bool}
    (hstop : ∀ c ∈ usesKey, ∀ previous rest, stop previous c rest = false)
    {spelling : List Char} (hspelling : spelling ∈ usesScalars.map Scalar.text)
    (previous : Option Char) (rest : List Char) :
    ∃ last, YamlSubset.splitOutsideQuotes stop none previous
        (spelling ++ rest) =
      (spelling ++ (YamlSubset.splitOutsideQuotes stop none last rest).1,
        (YamlSubset.splitOutsideQuotes stop none last rest).2) := by
  have hbody : ∀ quote : Char, YamlSubset.isQuote quote = true →
      ∀ c ∈ usesKey, c ≠ quote ∧ (quote = '"' → c ≠ '\\') := by
    intro quote hquote c hc
    rw [YamlSubset.isQuote, decide_eq_true_eq] at hquote
    rcases hquote with rfl | rfl
    · rcases mem_usesKey hc with rfl | rfl | rfl
      all_goals decide
    · rcases mem_usesKey hc with rfl | rfl | rfl
      all_goals decide
  rcases mem_usesScalars_text hspelling with rfl | rfl | rfl
  · have hletters : ∀ c ∈ usesKey, YamlSubset.isQuote c = false := by
      intro c hc
      rcases mem_usesKey hc with rfl | rfl | rfl
      all_goals rfl
    refine ⟨some 's', ?_⟩
    exact YamlSubset.splitOutsideQuotes_append_of_forall
      (fun c hc => ⟨hletters c hc, hstop c hc⟩) previous rest (some 's') rfl
  · exact ⟨some '\'', YamlSubset.splitOutsideQuotes_quoted rfl
      (hbody '\'' rfl) previous rest⟩
  · exact ⟨some '"', YamlSubset.splitOutsideQuotes_quoted rfl
      (hbody '"' rfl) previous rest⟩

theorem splitKey?_eq_some {content key value : List Char}
    (h : YamlSubset.splitKey? content = some (key, value)) :
    content = key ++ ':' :: value ∧ (value = [] ∨ value.head? = some ' ') := by
  rw [YamlSubset.splitKey?] at h
  cases hsplit : YamlSubset.splitOutsideQuotes YamlSubset.separatesKey none none
      content with
  | mk front back =>
    rw [hsplit] at h
    cases back with
    | nil => cases h
    | cons c rest =>
      obtain ⟨rfl, rfl⟩ := Prod.mk.inj (Option.some.inj h)
      obtain ⟨previous, hstop⟩ := splitOutsideQuotes_stops hsplit
      rw [YamlSubset.separatesKey, decide_eq_true_eq] at hstop
      obtain ⟨rfl, hrest⟩ := hstop
      have happend := YamlSubset.splitOutsideQuotes_append
        YamlSubset.separatesKey none none content
      rw [hsplit] at happend
      exact ⟨happend.symm, hrest⟩

/-- The scan of a key finds the colon behind a spelling of it. -/
theorem splitKey?_uses {spelling blanks rest : List Char}
    (hspelling : spelling ∈ usesScalars.map Scalar.text)
    (hblanks : AllBlank blanks) (hrest : rest = [] ∨ rest.head? = some ' ') :
    YamlSubset.splitKey? (spelling ++ (blanks ++ ':' :: rest)) =
      some (spelling ++ blanks, rest) := by
  have hletters : ∀ c ∈ usesKey, ∀ previous rest,
      YamlSubset.separatesKey previous c rest = false := by
    intro c hc previous rest
    have hne : c ≠ ':' := by
      rintro rfl
      exact absurd hc (by decide)
    simp [YamlSubset.separatesKey, hne]
  have hplain : ∀ c ∈ blanks, YamlSubset.isQuote c = false ∧
      ∀ previous rest, YamlSubset.separatesKey previous c rest = false := by
    intro c hc
    have hblank := hblanks c hc
    rw [isAsciiBlank, decide_eq_true_eq] at hblank
    rcases hblank with rfl | rfl | rfl | rfl
    all_goals exact ⟨rfl, fun _ _ => rfl⟩
  have hbehind : ∀ previous, YamlSubset.splitOutsideQuotes
      YamlSubset.separatesKey none previous (blanks ++ ':' :: rest) =
        (blanks, ':' :: rest) := by
    intro previous
    apply YamlSubset.splitOutsideQuotes_stop hplain previous ':' rfl rest
    intro previous
    simpa [YamlSubset.separatesKey] using hrest
  obtain ⟨last, hsplit⟩ := splitOutsideQuotes_uses hletters hspelling none
    (blanks ++ ':' :: rest)
  rw [YamlSubset.splitKey?, hsplit, hbehind]

/-- The content that is read as a `uses` entry. -/
theorem isUses_contentReading_iff {content : List Char}
    (hhead : ∀ c ∈ content.head?, isAsciiBlank c = false) :
    (contentReading content).isUses = true ↔
      ∃ spelling blanks rest, StartsUses content spelling blanks rest ∧
        YamlSubset.opensBlockScalar (trimmed rest) = false := by
  rw [contentReading, parseKeyValue]
  constructor
  · intro h
    cases hsplit : YamlSubset.splitKey? content with
    | none =>
      rw [hsplit] at h
      cases h
    | some pair =>
      obtain ⟨key, value⟩ := pair
      rw [hsplit] at h
      simp only [Option.map_some] at h
      split_ifs at h with hblock hkey
      · cases h
      · obtain ⟨rfl, hvalue⟩ := splitKey?_eq_some hsplit
        have hkeyHead : ∀ c ∈ key.head?, isAsciiBlank c = false := by
          intro c hc
          apply hhead
          rw [List.head?_append, hc, Option.some_or]
          exact Option.mem_some_self c
        obtain ⟨blanks, hblanks, htrimmed⟩ :=
          exists_trimmed_append hkeyHead
        refine ⟨trimmed key, blanks, value, ⟨?_, hblanks, ?_, hvalue⟩, ?_⟩
        · exact mem_usesScalars_of_unquoted hkey
        · conv_lhs => rw [htrimmed]
          rw [List.append_assoc]
        · exact Bool.eq_false_iff.mpr hblock
      · cases h
  · rintro ⟨spelling, blanks, rest, ⟨hspelling, hblanks, rfl, hrest⟩, hblock⟩
    rw [splitKey?_uses hspelling hblanks hrest]
    have htrimmed : trimmed (spelling ++ blanks) = spelling := by
      have hnil : blanks.rdropWhile isAsciiBlank = [] :=
        List.rdropWhile_eq_nil_iff.mpr hblanks
      rw [trimmed_append (isSolid_uses hspelling), hnil, List.append_nil]
    have hkey : YamlSubset.unquoted spelling = usesKey := by
      rcases mem_usesScalars_text hspelling with rfl | rfl | rfl
      · decide
      · decide
      · decide
    simp [htrimmed, hkey, hblock, LineReading.isUses, LineReading.usesValue?]

theorem splitOutsideQuotes_startsComment (openQuote previous : Option Char)
    (text : List Char) :
    let (front, back) := YamlSubset.splitOutsideQuotes YamlSubset.startsComment
      openQuote previous text
    back = [] ∨ (back.head? = some '#' ∧
      ∀ c ∈ front.getLast?.or previous, isAsciiBlank c = true) := by
  fun_induction YamlSubset.splitOutsideQuotes YamlSubset.startsComment openQuote
    previous text with
  | case1 => exact Or.inl rfl
  | case2 => exact Or.inl rfl
  | case3 =>
    rename_i before behind hsplit ih
    rw [hsplit] at ih
    simpa [List.getLast?_cons, Option.or_some] using ih
  | case4 =>
    rename_i before behind hsplit ih
    rw [hsplit] at ih
    simpa [List.getLast?_cons, Option.or_some] using ih
  | case5 =>
    rename_i before behind hsplit ih
    rw [hsplit] at ih
    simpa [List.getLast?_cons, Option.or_some] using ih
  | case6 previous c rest hquote hstop =>
    rw [YamlSubset.startsComment, decide_eq_true_eq] at hstop
    obtain ⟨rfl, hprevious⟩ := hstop
    refine Or.inr ⟨rfl, ?_⟩
    rintro c hc
    rcases hprevious with rfl | rfl | rfl
    · cases hc
    · obtain rfl := Option.some.inj hc
      rfl
    · obtain rfl := Option.some.inj hc
      rfl
  | case7 =>
    rename_i before behind hsplit ih
    rw [hsplit] at ih
    simpa [List.getLast?_cons, Option.or_some] using ih

/-- The trimmed content, the blanks behind it and the comment. -/
structure IsCut (text kept blanks comment : List Char) : Prop where
  text_eq : text = kept ++ (blanks ++ comment)
  kept_last : ∀ c ∈ kept.getLast?, isAsciiBlank c = false
  blanks_blank : AllBlank blanks
  comment_mark : comment = [] ∨ comment.head? = some '#'
  comment_behind : comment = [] ∨ kept = [] ∨ blanks ≠ []

theorem exists_isCut {text : List Char}
    (hhead : ∀ c ∈ text.head?, isAsciiBlank c = false) :
    ∃ blanks comment,
      IsCut text (trimmed (withoutInlineComment text)) blanks comment := by
  have happend := YamlSubset.splitOutsideQuotes_append YamlSubset.startsComment
    none none text
  have hcomment := splitOutsideQuotes_startsComment none none text
  rw [withoutInlineComment, YamlSubset.withoutComment]
  rcases hsplit : YamlSubset.splitOutsideQuotes YamlSubset.startsComment none
    none text with ⟨front, comment⟩
  rw [hsplit] at happend hcomment
  have hfront : ∀ c ∈ front.head?, isAsciiBlank c = false := by
    intro c hc
    apply hhead
    rw [← happend, List.head?_append, hc, Option.some_or]
    exact Option.mem_some_self c
  obtain ⟨blanks, hblanks, htrimmed⟩ := exists_trimmed_append hfront
  refine ⟨blanks, comment, ?_, getLast?_trimmed, hblanks,
    hcomment.imp_right And.left, ?_⟩
  · rw [← List.append_assoc, ← htrimmed, happend]
  · rcases hcomment with hnil | ⟨-, hlast⟩
    · exact Or.inl hnil
    · refine Or.inr ?_
      by_cases hempty : blanks = []
      · rw [hempty, List.append_nil] at htrimmed
        refine Or.inl (List.getLast?_eq_none_iff.mp ?_)
        cases hback : (trimmed front).getLast? with
        | none => rfl
        | some c =>
          have hsolid := getLast?_trimmed c hback
          rw [← htrimmed] at hback
          rw [hlast c (by rw [hback]; rfl)] at hsolid
          cases hsolid
      · exact Or.inr hempty

/-! ## The text of a line -/

/-- The marker of a sequence item, if there is one. -/
def IsMarker (marker : List Char) : Prop :=
  marker = [] ∨ ∃ spaces, AllBlank spaces ∧ marker = '-' :: ' ' :: spaces

/-- The text of a line, behind its indentation, that is read as a `uses`
entry: perhaps the marker of a sequence item, the key, its colon, and a value
that does not open a block scalar. -/
structure ShowsUses (text marker spelling blanks rest cut comment :
    List Char) : Prop where
  isMarker : IsMarker marker
  spelling_mem : spelling ∈ usesScalars.map Scalar.text
  blanks_blank : AllBlank blanks
  text_eq : text =
    marker ++ (spelling ++ (blanks ++ ':' :: (rest ++ (cut ++ comment))))
  separates : rest = [] ∨ rest.head? = some ' '
  not_block : YamlSubset.opensBlockScalar (trimmed rest) = false
  cut_blank : AllBlank cut
  comment_mark : comment = [] ∨ comment.head? = some '#'
  comment_behind : comment = [] ∨ rest ≠ [] ∨ cut ≠ []

/-- Nothing but a blank stands right behind the colon. -/
theorem ShowsUses.blank_behind {text marker spelling blanks rest cut comment :
    List Char}
    (h : ShowsUses text marker spelling blanks rest cut comment) :
    ∀ c ∈ (rest ++ (cut ++ comment)).head?, isAsciiBlank c = true := by
  intro c hc
  rcases h.separates with rfl | hspace
  · rcases h.comment_behind with rfl | hne | hne
    · rw [List.nil_append, List.append_nil] at hc
      exact h.cut_blank c (List.mem_of_mem_head? hc)
    · exact absurd rfl hne
    · rw [List.nil_append, List.head?_append_of_ne_nil _ hne] at hc
      exact h.cut_blank c (List.mem_of_mem_head? hc)
  · rw [List.head?_append, hspace, Option.some_or] at hc
    obtain rfl := Option.some.inj hc
    rfl

theorem exists_showsUses {text : List Char}
    (hhead : ∀ c ∈ text.head?, isAsciiBlank c = false)
    (h : (contentReading (withoutSequenceMarker
      (trimmed (withoutInlineComment text)))).isUses = true) :
    ∃ marker spelling blanks rest cut comment,
      ShowsUses text marker spelling blanks rest cut comment := by
  obtain ⟨cut, comment, hcut⟩ := exists_isCut hhead
  generalize trimmed (withoutInlineComment text) = kept at h hcut
  have hkeptHead : ∀ c ∈ kept.head?, isAsciiBlank c = false := by
    intro c hc
    apply hhead
    rw [hcut.text_eq, List.head?_append, hc, Option.some_or]
    exact Option.mem_some_self c
  rw [withoutSequenceMarker] at h
  split_ifs at h with hdash hmarker
  · cases h
  · -- the marker of a sequence item stands in front of the key
    obtain ⟨back, rfl⟩ := List.isPrefixOf_iff_prefix.mp hmarker
    have hdrop : (['-', ' '] ++ back).drop 2 = back := rfl
    rw [hdrop] at h
    have hheadBack : ∀ c ∈ (trimmed back).head?, isAsciiBlank c = false := by
      rw [head?_trimmed]
      exact of_solidHead
    obtain ⟨spelling, blanks, rest, hstarts, hblock⟩ :=
      (isUses_contentReading_iff hheadBack).mp h
    obtain ⟨lead, more, hlead, hmore, hback⟩ := exists_blanks_trimmed back
    refine ⟨'-' :: ' ' :: lead, spelling, blanks, rest, more ++ cut, comment,
      Or.inr ⟨lead, hlead, rfl⟩, hstarts.spelling_mem, hstarts.blanks_blank, ?_,
      hstarts.separates, hblock, ?_, hcut.comment_mark, ?_⟩
    · rw [hcut.text_eq, hback, hstarts.content_eq]
      simp only [List.append_assoc, List.cons_append, List.nil_append]
    · intro c hc
      rcases List.mem_append.mp hc with hc | hc
      · exact hmore c hc
      · exact hcut.blanks_blank c hc
    · rcases hcut.comment_behind with hnil | hnil | hne
      · exact Or.inl hnil
      · exact absurd hnil (by simp)
      · exact Or.inr (Or.inr (by simp [hne]))
  · obtain ⟨spelling, blanks, rest, hstarts, hblock⟩ :=
      (isUses_contentReading_iff hkeptHead).mp h
    refine ⟨[], spelling, blanks, rest, cut, comment, Or.inl rfl,
      hstarts.spelling_mem, hstarts.blanks_blank, ?_, hstarts.separates, hblock,
      hcut.blanks_blank, hcut.comment_mark, ?_⟩
    · rw [hcut.text_eq, hstarts.content_eq]
      simp only [List.nil_append, List.append_assoc, List.cons_append]
    · rcases hcut.comment_behind with hnil | hnil | hne
      · exact Or.inl hnil
      · have hcontent := hstarts.content_eq
        rw [hnil] at hcontent
        exact absurd hcontent.symm (by simp)
      · exact Or.inr (Or.inr hne)

def keptBehindColon (text : List Char) : List Char :=
  (YamlSubset.splitOutsideQuotes YamlSubset.startsComment none (some ':')
    text).1.rdropWhile isAsciiBlank

theorem isQuote_and_startsComment {c : Char}
    (hc : isAsciiBlank c = true ∨ c = '-' ∨ c = ':') :
    YamlSubset.isQuote c = false ∧
      ∀ previous rest, YamlSubset.startsComment previous c rest = false := by
  rw [isAsciiBlank, decide_eq_true_eq] at hc
  rcases hc with (rfl | rfl | rfl | rfl) | rfl | rfl
  all_goals exact ⟨rfl, fun _ _ => rfl⟩

theorem withoutInlineComment_uses {marker spelling blanks text : List Char}
    (hmarker : IsMarker marker)
    (hspelling : spelling ∈ usesScalars.map Scalar.text)
    (hblanks : AllBlank blanks) :
    trimmed (withoutInlineComment
        (marker ++ (spelling ++ (blanks ++ ':' :: text)))) =
      marker ++ (spelling ++ (blanks ++ ':' :: keptBehindColon text)) := by
  have hletters : ∀ c ∈ usesKey, ∀ previous rest,
      YamlSubset.startsComment previous c rest = false := by
    intro c hc previous rest
    have hne : c ≠ '#' := by
      rintro rfl
      exact absurd hc (by decide)
    simp [YamlSubset.startsComment, hne]
  have hmarkerChars : ∀ c ∈ marker, YamlSubset.isQuote c = false ∧
      ∀ previous rest, YamlSubset.startsComment previous c rest = false := by
    intro c hc
    apply isQuote_and_startsComment
    rcases hmarker with rfl | ⟨spaces, hspaces, rfl⟩
    · cases hc
    · rw [List.mem_cons, List.mem_cons] at hc
      rcases hc with rfl | rfl | hc
      · exact Or.inr (Or.inl rfl)
      · exact Or.inl rfl
      · exact Or.inl (hspaces c hc)
  have hcolonChars : ∀ c ∈ blanks ++ [':'], YamlSubset.isQuote c = false ∧
      ∀ previous rest, YamlSubset.startsComment previous c rest = false := by
    intro c hc
    apply isQuote_and_startsComment
    rcases List.mem_append.mp hc with hc | hc
    · exact Or.inl (hblanks c hc)
    · exact Or.inr (Or.inr (List.mem_singleton.mp hc))
  have hassoc : blanks ++ ':' :: text = (blanks ++ [':']) ++ text := by simp
  have hsplit := YamlSubset.splitOutsideQuotes_append_of_forall hmarkerChars none
    (spelling ++ (blanks ++ ':' :: text)) _ rfl
  obtain ⟨last, hkey⟩ := splitOutsideQuotes_uses hletters hspelling
    (marker.getLast?.or none) (blanks ++ ':' :: text)
  have hcolon := YamlSubset.splitOutsideQuotes_append_of_forall hcolonChars last text
    (some ':') (by rw [List.getLast?_concat, Option.some_or])
  have hsolid : IsSolid (marker ++ (spelling ++ (blanks ++ [':']))) := by
    have hback : IsSolid (spelling ++ (blanks ++ [':'])) := by
      refine ⟨?_, ⟨':', by simp, rfl⟩⟩
      obtain ⟨c, hc, hhead⟩ := (isSolid_uses hspelling).head
      refine ⟨c, ?_, hhead⟩
      rw [List.head?_append, hc, Option.some_or]
      exact Option.mem_some_self c
    rcases hmarker with rfl | ⟨spaces, hspaces, rfl⟩
    · exact hback
    · exact hback.append ⟨'-', rfl, rfl⟩
  have htrimmed := trimmed_append hsolid
    (YamlSubset.splitOutsideQuotes YamlSubset.startsComment none (some ':')
      text).1
  rw [withoutInlineComment, YamlSubset.withoutComment, hsplit, hkey, hassoc,
    hcolon, keptBehindColon]
  simpa only [List.append_assoc, List.cons_append, List.nil_append]
    using htrimmed

theorem isUses_of_showsUses {marker spelling blanks text : List Char}
    (hmarker : IsMarker marker)
    (hspelling : spelling ∈ usesScalars.map Scalar.text)
    (hblanks : AllBlank blanks)
    (hseparates : keptBehindColon text = [] ∨
      (keptBehindColon text).head? = some ' ')
    (hblock : YamlSubset.opensBlockScalar (trimmed (keptBehindColon text)) =
      false) :
    (contentReading (withoutSequenceMarker (trimmed (withoutInlineComment
      (marker ++ (spelling ++ (blanks ++ ':' :: text))))))).isUses = true := by
  rw [withoutInlineComment_uses hmarker hspelling hblanks]
  have hsolid := isSolid_uses hspelling
  obtain ⟨c, hc, hhead⟩ := hsolid.head
  have hcontentHead : (spelling ++ (blanks ++ ':' :: keptBehindColon
      text)).head? = some c := by
    rw [List.head?_append, hc, Option.some_or]
  have hreading : (contentReading (spelling ++ (blanks ++
      ':' :: keptBehindColon text))).isUses = true := by
    rw [isUses_contentReading_iff]
    · exact ⟨spelling, blanks, keptBehindColon text,
        ⟨hspelling, hblanks, rfl, hseparates⟩, hblock⟩
    · intro d hd
      obtain rfl := Option.some.inj (hcontentHead.symm.trans hd)
      exact hhead
  rcases hmarker with rfl | ⟨spaces, hspaces, rfl⟩
  · have hdash : c ≠ '-' := by
      rcases mem_usesScalars_text hspelling with rfl | rfl | rfl
      all_goals
        obtain rfl := Option.some.inj hc
        decide
    have hkeep : withoutSequenceMarker (spelling ++ (blanks ++
        ':' :: keptBehindColon text)) =
          spelling ++ (blanks ++ ':' :: keptBehindColon text) := by
      obtain ⟨rest, hrest⟩ := List.head?_eq_some_iff.mp hcontentHead
      rw [hrest, withoutSequenceMarker, if_neg, if_neg]
      · simp [List.isPrefixOf, Ne.symm hdash]
      · simp [hdash]
    rwa [List.nil_append, hkeep]
  · have hstrip : withoutSequenceMarker ('-' :: ' ' :: spaces ++ (spelling ++
        (blanks ++ ':' :: keptBehindColon text))) =
          spelling ++ (blanks ++ ':' :: keptBehindColon text) := by
      have hback : IsSolid (spelling ++ (blanks ++ [':'])) := by
        refine ⟨⟨c, ?_, hhead⟩, ⟨':', by simp, rfl⟩⟩
        rw [List.head?_append, hc, Option.some_or]
        exact Option.mem_some_self c
      have hkept := trimmed_append hback (keptBehindColon text)
      rw [keptBehindColon, List.rdropWhile_idempotent, ← keptBehindColon] at hkept
      rw [withoutSequenceMarker, if_neg (by simp), if_pos (by simp)]
      have hdrop : ('-' :: ' ' :: spaces ++ (spelling ++ (blanks ++
          ':' :: keptBehindColon text))).drop 2 = spaces ++ (spelling ++
            (blanks ++ ':' :: keptBehindColon text)) := rfl
      rw [hdrop, trimmed_blanks_append hspaces]
      simpa only [List.append_assoc, List.cons_append, List.nil_append]
        using hkept
    rwa [hstrip]

end Bomwerk.Ci.GithubActions
