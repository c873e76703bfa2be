import Bomwerk.Ci.UsesLines

/-!
# Entries that are read as `uses` entries

A line of a document is read as a `uses` entry exactly when it is one, is behind
one marker at most, spells its key without escapes, and holds its value, if any,
behind a space.
-/

namespace Bomwerk.Ci.GithubActions

open Bomwerk.Core Bomwerk.Support

/-! ## Scalars -/

/-- A text in single quotes ends at the first quote that is not doubled. -/
theorem doubled_append_inj {value word left right : List Char}
    (hword : '\'' ∉ word) (hright : right.head? ≠ some '\'')
    (h : Scalar.doubled value ++ '\'' :: left = word ++ '\'' :: right) :
    value = word ∧ left = right := by
  induction word generalizing value with
  | nil =>
    cases value with
    | nil => exact ⟨rfl, (List.cons.inj h).2⟩
    | cons c value =>
      by_cases hc : c = '\''
      · subst hc
        obtain ⟨-, hrest⟩ := List.cons.inj h
        exact absurd (by rw [← hrest]; rfl) hright
      · rw [Scalar.doubled, List.flatMap_cons, if_neg hc] at h
        exact absurd (List.cons.inj h).1 hc
  | cons d word ih =>
    rw [List.mem_cons, not_or] at hword
    cases value with
    | nil => exact absurd (List.cons.inj h).1 hword.1
    | cons c value =>
      by_cases hc : c = '\''
      · subst hc
        exact absurd (List.cons.inj h).1 hword.1
      · rw [Scalar.doubled, List.flatMap_cons, if_neg hc] at h
        obtain ⟨rfl, hrest⟩ := List.cons.inj h
        obtain ⟨rfl, htail⟩ := ih hword.2 hrest
        exact ⟨rfl, htail⟩

/-- A text in double quotes that spells a word without escapes. -/
theorem pieces_append_inj {pieces : List QuotedPiece}
    (hpieces : ∀ piece ∈ pieces, piece.IsWritten)
    {word left right : List Char} (hquote : '"' ∉ word) (hslash : '\\' ∉ word)
    (h : pieces.flatMap QuotedPiece.text ++ '"' :: left =
      word ++ '"' :: right) :
    pieces = word.map QuotedPiece.plain ∧ left = right := by
  induction word generalizing pieces with
  | nil =>
    cases pieces with
    | nil => exact ⟨rfl, (List.cons.inj h).2⟩
    | cons piece pieces =>
      have hpiece := hpieces piece List.mem_cons_self
      cases piece with
      | plain c =>
        obtain rfl := (List.cons.inj h).1
        exact absurd (by simp) hpiece
      | simple code => exact absurd (List.cons.inj h).1 (by decide)
      | numeric code digits => exact absurd (List.cons.inj h).1 (by decide)
  | cons d word ih =>
    rw [List.mem_cons, not_or] at hquote hslash
    cases pieces with
    | nil => exact absurd (List.cons.inj h).1 hquote.1
    | cons piece pieces =>
      cases piece with
      | plain c =>
        obtain ⟨rfl, hrest⟩ := List.cons.inj h
        obtain ⟨rfl, htail⟩ := ih
          (fun piece hpiece => hpieces piece
            (List.mem_cons_of_mem _ hpiece)) hquote.2 hslash.2 hrest
        exact ⟨rfl, htail⟩
      | simple code => exact absurd (List.cons.inj h).1 hslash.1
      | numeric code digits => exact absurd (List.cons.inj h).1 hslash.1

/-- A plain scalar holds no colon that could end a key. -/
theorem plain_append_inj {text tail blanks rest : List Char}
    (hplain : IsPlainScalar text) (hblanks : AllBlank blanks)
    (hrest : ∀ c ∈ rest.head?, isAsciiBlank c = true)
    (htail : ∀ c ∈ tail.head?, isAsciiBlank c = true ∨ c = ':')
    (h : text ++ tail = usesKey ++ (blanks ++ ':' :: rest)) :
    text = usesKey ∧ tail = blanks ++ ':' :: rest := by
  have hletters : ∀ c ∈ usesKey, ¬(isAsciiBlank c = true ∨ c = ':') := by
    intro c hc
    rcases mem_usesKey hc with rfl | rfl | rfl
    all_goals decide
  obtain ⟨last, hlast, hsolid⟩ := hplain.last
  have hlastSolid : ∀ front back, text = front ++ back → back ≠ [] →
      AllBlank back → False := by
    rintro front back rfl hne hback
    rw [List.getLast?_append_of_ne_nil _ hne] at hlast
    have hmem := List.mem_of_getLast? hlast
    rw [hback last hmem] at hsolid
    cases hsolid
  rcases List.append_eq_append_iff.mp h with
    ⟨back, hkey, hback⟩ | ⟨back, htext, hback⟩
  · cases back with
    | nil => exact ⟨by simpa using hkey.symm, hback⟩
    | cons c back =>
      have hc : c ∈ usesKey := by rw [hkey]; simp
      exact absurd (htail c (by rw [hback]; rfl)) (hletters c hc)
  · by_cases hnil : back = []
    · subst hnil
      exact ⟨by simpa using htext, hback.symm⟩
    exfalso
    rcases List.append_eq_append_iff.mp hback with
      ⟨more, hmore, hcolon⟩ | ⟨more, hmore, -⟩
    · cases more with
      | nil =>
        rw [List.append_nil] at hmore
        exact hlastSolid usesKey back htext hnil (hmore ▸ hblanks)
      | cons c more =>
        obtain ⟨rfl, hbehind⟩ := List.cons.inj hcolon
        obtain ⟨next, hnext, hnextSolid⟩ :=
          hplain.colon (usesKey ++ blanks) more
            (by rw [htext, hmore, List.append_assoc])
        have hhead : next ∈ rest.head? := by
          rw [hbehind, List.append_eq, List.head?_append, hnext, Option.some_or]
          exact Option.mem_some_self next
        have hblank := hrest next hhead
        rw [hblank] at hnextSolid
        cases hnextSolid
    · refine hlastSolid usesKey back htext hnil fun c hc => hblanks c ?_
      rw [hmore]
      exact List.mem_append_left _ hc

/-- What reads as the key in front of a colon is the whole scalar. -/
theorem scalar_append_inj {scalar : Scalar} (hscalar : scalar.IsWritten)
    {spelling tail blanks rest : List Char}
    (hspelling : spelling ∈ usesScalars.map Scalar.text)
    (hblanks : AllBlank blanks)
    (hrest : ∀ c ∈ rest.head?, isAsciiBlank c = true)
    (htail : ∀ c ∈ tail.head?, isAsciiBlank c = true ∨ c = ':')
    (h : scalar.text ++ tail = spelling ++ (blanks ++ ':' :: rest)) :
    scalar ∈ usesScalars ∧ tail = blanks ++ ':' :: rest := by
  have hhead : ∀ quote : Char, isAsciiBlank quote = false → quote ≠ ':' →
      (blanks ++ ':' :: rest).head? ≠ some quote := by
    intro quote hquote hcolon hmem
    cases blanks with
    | nil => exact hcolon (Option.some.inj hmem).symm
    | cons c blanks =>
      obtain rfl := Option.some.inj hmem
      rw [hblanks c List.mem_cons_self] at hquote
      cases hquote
  have hfirst : ∀ text, scalar = .plain text →
      ∀ c ∈ (text ++ tail).head?, c ∉ ['\'', '"'] := by
    rintro text rfl c hc hquote
    obtain ⟨first, back, rfl, hindicator, -⟩ := hscalar.first
    obtain rfl := Option.some.inj hc
    apply hindicator
    rw [List.mem_pair] at hquote
    rcases hquote with rfl | rfl
    · decide
    · decide
  rcases mem_usesScalars_text hspelling with rfl | rfl | rfl
  · cases scalar with
    | plain text =>
      obtain ⟨rfl, rfl⟩ := plain_append_inj hscalar hblanks hrest htail h
      exact ⟨by decide, rfl⟩
    | singleQuoted value => exact absurd (List.cons.inj h).1 (by decide)
    | doubleQuoted pieces => exact absurd (List.cons.inj h).1 (by decide)
  · cases scalar with
    | plain text =>
      have hquote := hfirst text rfl '\'' (by
        rw [show text ++ tail = _ from h]
        rfl)
      exact absurd (by decide) hquote
    | singleQuoted value =>
      have hbody : Scalar.doubled value ++ '\'' :: tail =
          usesKey ++ '\'' :: (blanks ++ ':' :: rest) := by
        simpa [Scalar.text, usesKey] using h
      obtain ⟨rfl, rfl⟩ := doubled_append_inj (by decide : '\'' ∉ usesKey)
        (hhead '\'' rfl (by decide)) hbody
      exact ⟨by decide, rfl⟩
    | doubleQuoted pieces => exact absurd (List.cons.inj h).1 (by decide)
  · cases scalar with
    | plain text =>
      have hquote := hfirst text rfl '"' (by
        rw [show text ++ tail = _ from h]
        rfl)
      exact absurd (by decide) hquote
    | singleQuoted value => exact absurd (List.cons.inj h).1 (by decide)
    | doubleQuoted pieces =>
      have hbody : pieces.flatMap QuotedPiece.text ++ '"' :: tail =
          usesKey ++ '"' :: (blanks ++ ':' :: rest) := by
        simpa [Scalar.text, usesKey] using h
      obtain ⟨rfl, rfl⟩ := pieces_append_inj hscalar
        (by decide : '"' ∉ usesKey) (by decide) hbody
      exact ⟨by decide, rfl⟩

theorem value_of_mem_usesScalars {scalar : Scalar}
    (h : scalar ∈ usesScalars) : scalar.value = usesKey := by
  have hall : ∀ scalar ∈ usesScalars, scalar.value = usesKey := by decide
  exact hall scalar h

theorem exists_scalar_head {scalar : Scalar} (hscalar : scalar.IsWritten) :
    ∃ c rest, scalar.text = c :: rest ∧ isAsciiBlank c = false ∧
      c ∉ ['#', '|', '>'] := by
  cases scalar with
  | plain text =>
    obtain ⟨c, rest, htext, hindicator, hsolid, -⟩ := hscalar.first
    refine ⟨c, rest, htext, hsolid, fun hc => hindicator ?_⟩
    simp only [List.mem_cons, List.not_mem_nil, or_false] at hc
    rcases hc with rfl | rfl | rfl
    · decide
    · decide
    · decide
  | singleQuoted value => exact ⟨'\'', _, rfl, rfl, by decide⟩
  | doubleQuoted pieces => exact ⟨'"', _, rfl, rfl, by decide⟩

theorem scalar_append_ne_marker {scalar : Scalar} (hscalar : scalar.IsWritten)
    (tail rest : List Char) : scalar.text ++ tail ≠ '-' :: ' ' :: rest := by
  intro h
  cases scalar with
  | plain text =>
    obtain ⟨c, back, rfl, -, -, hnext⟩ := hscalar.first
    obtain ⟨rfl, hback⟩ := List.cons.inj h
    obtain ⟨next, hmem, hsolid⟩ := hnext (by decide)
    obtain ⟨more, rfl⟩ := List.head?_eq_some_iff.mp hmem
    obtain ⟨rfl, -⟩ := List.cons.inj hback
    cases hsolid
  | singleQuoted value => exact absurd (List.cons.inj h).1 (by decide)
  | doubleQuoted pieces => exact absurd (List.cons.inj h).1 (by decide)

namespace Trailing

variable {trailing : Trailing}

theorem IsWritten.blank_head (h : trailing.IsWritten) :
    ∀ c ∈ trailing.text.head?, isAsciiBlank c = true := by
  intro c hc
  rw [Trailing.text] at hc
  cases hblanks : trailing.blanks with
  | nil =>
    have hnone : trailing.comment = none := by
      cases hcomment : trailing.comment with
      | none => rfl
      | some comment => exact absurd hblanks (h.comment comment hcomment).1
    rw [hblanks, hnone] at hc
    split_ifs at hc
    · obtain rfl := Option.some.inj hc
      rfl
    · cases hc
  | cons blank blanks =>
    rw [hblanks] at hc
    obtain rfl := Option.some.inj hc
    rcases h.blanks blank (by rw [hblanks]; exact List.mem_cons_self) with
      rfl | rfl
    · rfl
    · rfl

theorem IsWritten.allBlank (h : trailing.IsWritten) :
    AllBlank trailing.blanks := by
  intro c hc
  rcases h.blanks c hc with rfl | rfl
  · rfl
  · rfl

theorem IsWritten.solidHead (h : trailing.IsWritten) :
    solidHead trailing.text = none ∨ solidHead trailing.text = some '#' := by
  rw [Trailing.text, solidHead_append,
    solidHead_eq_none_iff.mpr h.allBlank, Option.none_or]
  cases trailing.comment with
  | none =>
    refine Or.inl ?_
    split_ifs
    · rfl
    · rfl
  | some comment => exact Or.inr rfl

theorem splitOutsideQuotes_comment {previous : Char}
    (h : previous = ' ' ∨ previous = '\t') (text : List Char) :
    (YamlSubset.splitOutsideQuotes YamlSubset.startsComment none (some previous)
      ('#' :: text)).1 = [] := by
  have hstop : YamlSubset.startsComment (some previous) '#' text = true := by
    simpa [YamlSubset.startsComment] using h
  rw [YamlSubset.splitOutsideQuotes]
  simp [YamlSubset.isQuote, hstop]

/-- A comment leaves nothing of it. -/
theorem IsWritten.keptBehindColon (h : trailing.IsWritten) :
    keptBehindColon trailing.text = [] := by
  have hscan : ∀ rest, (YamlSubset.splitOutsideQuotes YamlSubset.startsComment
      none (some ':') (trailing.blanks ++ rest)).1 =
        trailing.blanks ++ (YamlSubset.splitOutsideQuotes
          YamlSubset.startsComment none
            (trailing.blanks.getLast?.or (some ':')) rest).1 := by
    intro rest
    rw [YamlSubset.splitOutsideQuotes_append_of_forall (fun c hc =>
      isQuote_and_startsComment (Or.inl (h.allBlank c hc))) _ rest _ rfl]
  refine List.rdropWhile_eq_nil_iff.mpr ?_
  rw [Trailing.text, hscan]
  intro c hc
  rcases List.mem_append.mp hc with hc | hc
  · exact h.allBlank c hc
  · cases hcomment : trailing.comment with
    | none =>
      rw [hcomment, Option.map_none, Option.getD_none, List.nil_append] at hc
      have hmem := List.mem_append_left (YamlSubset.splitOutsideQuotes
        YamlSubset.startsComment none
          (trailing.blanks.getLast?.or (some ':'))
            (if trailing.carriageReturn then ['\r'] else [])).2 hc
      rw [YamlSubset.splitOutsideQuotes_append] at hmem
      split_ifs at hmem
      · obtain rfl := List.mem_singleton.mp hmem
        rfl
      · cases hmem
    | some comment =>
      obtain ⟨hne, -⟩ := h.comment comment hcomment
      rw [hcomment, List.getLast?_eq_some_getLast hne, Option.some_or,
        Option.map_some, Option.getD_some, List.cons_append,
        splitOutsideQuotes_comment
          (h.blanks _ (List.getLast_mem hne))] at hc
      cases hc

end Trailing

/-! ## Lines -/

/-- The value stands behind a space, on the line of its key. -/
def EntryValue.IsInline : EntryValue → Prop
  | nothing => True
  | scalar gap _ => gap.head? = some ' '
  | blockScalar _ _ => False

theorem opensBlockScalar_trimmed_iff {text : List Char} :
    YamlSubset.opensBlockScalar (trimmed text) = true ↔
      solidHead text = some '|' ∨ solidHead text = some '>' := by
  rw [YamlSubset.opensBlockScalar, decide_eq_true_eq, head?_trimmed]

theorem solidHead_header {header : List Char} (h : IsBlockHeader header)
    (rest : List Char) :
    solidHead (header ++ rest) = some '|' ∨
      solidHead (header ++ rest) = some '>' := by
  obtain ⟨style, hstyle, chomping, -, digits, -, hheader⟩ := h
  have hcons : ∃ back, header ++ rest = style :: back := by
    rcases hheader with rfl | rfl
    · exact ⟨_, rfl⟩
    · exact ⟨_, rfl⟩
  obtain ⟨back, hback⟩ := hcons
  rw [hback]
  rcases List.mem_pair.mp hstyle with rfl | rfl
  · exact Or.inl rfl
  · exact Or.inr rfl

theorem IsSeparation.allBlank {blanks : List Char} (h : IsSeparation blanks) :
    AllBlank blanks := by
  intro c hc
  rcases h c hc with rfl | rfl
  · rfl
  · rfl

/-- Behind the colon stands a value on the line exactly when what the scan keeps
of it does not open a block scalar. -/
theorem isInline_of_kept {value : EntryValue} (hvalue : value.IsWritten)
    {back rest cut comment : List Char}
    (htext : value.text ++ back = rest ++ (cut ++ comment))
    (hseparates : rest = [] ∨ rest.head? = some ' ')
    (hblock : YamlSubset.opensBlockScalar (trimmed rest) = false)
    (hcut : AllBlank cut)
    (hcomment : comment = [] ∨ comment.head? = some '#') : value.IsInline := by
  have hcommentHead : solidHead comment = none ∨
      solidHead comment = some '#' := by
    rcases hcomment with rfl | hmark
    · exact Or.inl rfl
    · obtain ⟨more, rfl⟩ := List.head?_eq_some_iff.mp hmark
      exact Or.inr rfl
  have hrest : solidHead (value.text ++ back) =
      (solidHead rest).or (solidHead comment) := by
    rw [htext, solidHead_append, solidHead_append,
      solidHead_eq_none_iff.mpr hcut, Option.none_or]
  cases value with
  | nothing => trivial
  | scalar gap scalar =>
    obtain ⟨hgap, hseparation, hscalar⟩ := hvalue
    obtain ⟨c, more, hc, hsolid, hmark⟩ := exists_scalar_head hscalar
    have hhead : solidHead (EntryValue.text (.scalar gap scalar) ++ back) =
        some c := by
      rw [EntryValue.text, List.append_assoc, solidHead_append,
        solidHead_eq_none_iff.mpr hseparation.allBlank, hc, Option.none_or]
      exact solidHead_cons hsolid _
    rcases hseparates with rfl | hspace
    · rw [hhead] at hrest
      rcases hcommentHead with hnone | hhash
      · rw [hnone] at hrest
        cases hrest
      · rw [hhash] at hrest
        obtain rfl : c = '#' := Option.some.inj hrest
        exact absurd (by decide) hmark
    · obtain ⟨more, rfl⟩ := List.head?_eq_some_iff.mp hspace
      obtain ⟨first, gap, rfl⟩ := List.exists_cons_of_ne_nil hgap
      obtain ⟨rfl, -⟩ := List.cons.inj htext
      rfl
  | blockScalar gap header =>
    obtain ⟨-, hseparation, hheader⟩ := hvalue
    have hhead := solidHead_header hheader back
    have hgap : solidHead (EntryValue.text (.blockScalar gap header) ++
        back) = solidHead (header ++ back) := by
      rw [EntryValue.text, List.append_assoc, solidHead_append,
        solidHead_eq_none_iff.mpr hseparation.allBlank, Option.none_or]
    rw [← hgap, hrest] at hhead
    have hopens : solidHead rest = some '|' ∨ solidHead rest = some '>' := by
      cases hsolid : solidHead rest with
      | some c => simpa [hsolid] using hhead
      | none =>
        rw [hsolid, Option.none_or] at hhead
        rcases hcommentHead with hnone | hhash
        · rw [hnone] at hhead
          rcases hhead with h | h
          · cases h
          · cases h
        · rw [hhash] at hhead
          exact absurd hhead (by decide)
    rw [← opensBlockScalar_trimmed_iff, hblock] at hopens
    cases hopens

theorem keptBehindColon_prefix (text : List Char) :
    keptBehindColon text <+: text := by
  have happend := YamlSubset.splitOutsideQuotes_append YamlSubset.startsComment
    none (some ':') text
  exact (List.rdropWhile_prefix _ _).trans ⟨_, happend⟩

theorem kept_of_isInline {value : EntryValue} (hvalue : value.IsWritten)
    {trailing : Trailing} (htrailing : trailing.IsWritten)
    (h : value.IsInline) :
    (keptBehindColon (value.text ++ trailing.text) = [] ∨
      (keptBehindColon (value.text ++ trailing.text)).head? = some ' ') ∧
        YamlSubset.opensBlockScalar
          (trimmed (keptBehindColon (value.text ++ trailing.text))) =
            false := by
  cases value with
  | nothing =>
    rw [EntryValue.text, List.nil_append, htrailing.keptBehindColon]
    exact ⟨Or.inl rfl, rfl⟩
  | blockScalar gap header => exact absurd h id
  | scalar gap scalar =>
    obtain ⟨-, hseparation, hscalar⟩ := hvalue
    obtain ⟨c, more, hc, hsolid, hmark⟩ := exists_scalar_head hscalar
    rw [EntryValue.text, List.append_assoc]
    obtain ⟨cut, hcut⟩ :=
      keptBehindColon_prefix (gap ++ (scalar.text ++ trailing.text))
    have hhead : solidHead (gap ++ (scalar.text ++ trailing.text)) =
        some c := by
      rw [solidHead_append, solidHead_eq_none_iff.mpr hseparation.allBlank,
        hc, Option.none_or]
      exact solidHead_cons hsolid _
    obtain ⟨gap, rfl⟩ := List.head?_eq_some_iff.mp h
    generalize keptBehindColon (' ' :: gap ++ (scalar.text ++
      trailing.text)) = kept at hcut ⊢
    rw [← hcut, solidHead_append] at hhead
    constructor
    · cases kept with
      | nil => exact Or.inl rfl
      | cons first kept =>
        obtain ⟨rfl, -⟩ := List.cons.inj hcut
        exact Or.inr rfl
    · rw [← Bool.not_eq_true, opensBlockScalar_trimmed_iff]
      intro hopens
      have hstyle : c = '|' ∨ c = '>' := by
        rcases hopens with h | h
        · rw [h, Option.some_or] at hhead
          exact Or.inl (Option.some.inj hhead).symm
        · rw [h, Option.some_or] at hhead
          exact Or.inr (Option.some.inj hhead).symm
      rcases hstyle with rfl | rfl
      · exact hmark (by decide)
      · exact hmark (by decide)

theorem exists_content_head {content : Content} (h : content.IsWritten) :
    ∃ c rest, content.text = c :: rest ∧ isAsciiBlank c = false := by
  cases content with
  | dash => exact ⟨'-', [], rfl, rfl⟩
  | scalar scalar =>
    obtain ⟨c, rest, htext, hsolid, -⟩ := exists_scalar_head h
    exact ⟨c, rest, htext, hsolid⟩
  | blockScalar header =>
    obtain ⟨style, hstyle, chomping, -, digits, -, hheader⟩ := h
    have hsolid : isAsciiBlank style = false := by
      rcases List.mem_pair.mp hstyle with rfl | rfl
      · rfl
      · rfl
    rcases hheader with rfl | rfl
    · exact ⟨style, _, rfl, hsolid⟩
    · exact ⟨style, _, rfl, hsolid⟩
  | entry key beforeColon value =>
    obtain ⟨c, rest, htext, hsolid, -⟩ := exists_scalar_head h.1
    exact ⟨c, rest ++ (beforeColon ++ ':' :: value.text),
      by rw [Content.text, htext, List.cons_append], hsolid⟩

/-- The content of a line that begins like a sequence item is a bare dash, with
nothing but a comment behind it. -/
theorem solidHead_of_marker {content : Content} (h : content.IsWritten)
    {trailing : Trailing} (htrailing : trailing.IsWritten) {rest : List Char}
    (htext : content.text ++ trailing.text = '-' :: ' ' :: rest) :
    solidHead rest = none ∨ solidHead rest = some '#' := by
  cases content with
  | dash =>
    have hrest : trailing.text = [' '] ++ rest := (List.cons.inj htext).2
    have hhead := htrailing.solidHead
    rw [hrest, solidHead_append] at hhead
    exact hhead
  | scalar scalar =>
    exact absurd htext (scalar_append_ne_marker h _ _)
  | blockScalar header =>
    have hhead := solidHead_header h trailing.text
    rw [Content.text] at htext
    rw [htext] at hhead
    exact absurd hhead (by simp [solidHead_cons (c := '-') rfl])
  | entry key beforeColon value =>
    rw [Content.text, List.append_assoc] at htext
    exact absurd htext (scalar_append_ne_marker h.1 _ _)

theorem spelling_head {spelling : List Char}
    (hspelling : spelling ∈ usesScalars.map Scalar.text) :
    ∃ first letters, spelling = first :: letters ∧
      isAsciiBlank first = false ∧ first ∉ ['-', '#', '|', '>'] := by
  rcases mem_usesScalars_text hspelling with rfl | rfl | rfl
  · exact ⟨'u', "ses".toList, by decide, rfl, by decide⟩
  · exact ⟨'\'', "uses'".toList, by decide, rfl, by decide⟩
  · exact ⟨'"', "uses\"".toList, by decide, rfl, by decide⟩

namespace NodeLine

variable {line : NodeLine}

theorem exists_behind_head (h : line.IsWritten) :
    ∃ c rest, line.behind = c :: rest ∧ isAsciiBlank c = false := by
  obtain ⟨c, rest, hcontent, hsolid⟩ := exists_content_head h.content
  rw [behind, markersText]
  cases line.markers with
  | nil => exact ⟨c, rest ++ line.trailing.text, by rw [hcontent]; rfl, hsolid⟩
  | cons spaces markers => exact ⟨'-', _, rfl, rfl⟩

theorem lineReading_text (h : line.IsWritten) :
    leadingSpaceCount line.text = line.indentation ∧ trimmed line.text ≠ [] ∧
        lineReading line.text = contentReading (withoutSequenceMarker
          (trimmed (withoutInlineComment line.behind))) := by
  obtain ⟨c, rest, hbehind, hsolid⟩ := exists_behind_head h
  have hspace : c ≠ ' ' := by
    rintro rfl
    cases hsolid
  have hcount : leadingSpaceCount line.text = line.indentation := by
    rw [text, hbehind]
    exact YamlSubset.leadingSpaceCount_replicate_append _ hspace rest
  have hdrop : line.text.drop line.indentation = line.behind := by
    rw [text, List.drop_append_of_le_length (by simp), List.drop_replicate,
      Nat.sub_self, List.replicate_zero, List.nil_append]
  refine ⟨hcount, ?_, ?_⟩
  · rw [Ne, trimmed_eq_nil_iff]
    intro hblank
    have hc := hblank c (by rw [text, hbehind]; simp)
    rw [hsolid] at hc
    cases hc
  · have htab : ¬(line.behind = [] ∨ line.behind.head? = some '\t') := by
      rw [hbehind]
      rintro (hnil | htab)
      · cases hnil
      · obtain rfl := Option.some.inj htab
        cases hsolid
    rw [lineReading, hcount, hdrop, if_neg htab]

/-- The line is read as a `uses` entry. -/
def IsReadable (line : NodeLine) : Prop :=
  line.markers.length ≤ 1 ∧ ∃ key beforeColon value,
    line.content = .entry key beforeColon value ∧ key ∈ usesScalars ∧
      value.IsInline

theorem IsReadable.isUsesEntry (h : line.IsReadable) : line.IsUsesEntry := by
  obtain ⟨-, key, beforeColon, value, hcontent, hkey, -⟩ := h
  exact ⟨key, beforeColon, value, hcontent, value_of_mem_usesScalars hkey⟩

/-- The markers of a line that is read so. -/
theorem exists_content_of_showsUses (h : line.IsWritten)
    {marker spelling rest : List Char} (hmarker : IsMarker marker)
    (hspelling : spelling ∈ usesScalars.map Scalar.text)
    (htext : line.behind = marker ++ (spelling ++ rest)) :
    line.markers.length ≤ 1 ∧
      line.content.text ++ line.trailing.text = spelling ++ rest := by
  obtain ⟨first, letters, hletters, hsolid, hfirst⟩ := spelling_head hspelling
  have hdash : first ≠ '-' ∧ first ≠ '#' := by
    constructor
    · rintro rfl
      exact hfirst (by decide)
    · rintro rfl
      exact hfirst (by decide)
  have hhead : ∀ c ∈ (spelling ++ rest).head?, isAsciiBlank c = false := by
    intro c hc
    rw [hletters] at hc
    obtain rfl := Option.some.inj hc
    exact hsolid
  rw [behind, markersText] at htext
  cases hmarkers : line.markers with
  | nil =>
    rw [hmarkers] at htext
    refine ⟨Nat.zero_le _, ?_⟩
    rcases hmarker with rfl | ⟨spaces, hspaces, rfl⟩
    · exact htext
    · have hback : solidHead (spaces ++ (spelling ++ rest)) = none ∨
          solidHead (spaces ++ (spelling ++ rest)) = some '#' :=
        solidHead_of_marker h.content h.trailing htext
      rw [solidHead_append, solidHead_eq_none_iff.mpr hspaces, hletters,
        Option.none_or, List.cons_append, solidHead_cons hsolid] at hback
      rcases hback with hnone | hhash
      · cases hnone
      · exact absurd (Option.some.inj hhash) hdash.2
  | cons spaces markers =>
    rw [hmarkers, List.flatMap_cons] at htext
    rcases hmarker with rfl | ⟨blanks, hblanks, rfl⟩
    · rw [hletters] at htext
      exact absurd (List.cons.inj htext).1.symm hdash.1
    · have hbehind : List.replicate spaces ' ' ++
          (markers.flatMap (fun spaces => '-' :: ' ' ::
            List.replicate spaces ' ') ++
              (line.content.text ++ line.trailing.text)) =
            blanks ++ (spelling ++ rest) := by
        simpa using htext
      obtain ⟨c, more, hcontent, hcontentSolid⟩ :=
        exists_content_head h.content
      have hreplicate : AllBlank (List.replicate spaces ' ') := by
        intro d hd
        rw [List.eq_of_mem_replicate hd]
        rfl
      cases markers with
      | nil =>
        refine ⟨le_rfl, (blanks_append_inj hreplicate hblanks ?_ hhead
          hbehind).2⟩
        intro d hd
        rw [hcontent] at hd
        obtain rfl := Option.some.inj hd
        exact hcontentSolid
      | cons spaces' markers =>
        obtain ⟨-, hrest⟩ := blanks_append_inj hreplicate hblanks
          (by rintro d ⟨rfl⟩; rfl) hhead hbehind
        rw [hletters] at hrest
        exact absurd (List.cons.inj hrest).1.symm hdash.1

/-- A line of a document is read as a `uses` entry exactly when it is one that
can be read. -/
theorem isUses_lineReading_iff (h : line.IsWritten) :
    (lineReading line.text).isUses = true ↔ line.IsReadable := by
  rw [(lineReading_text h).2.2]
  constructor
  · intro huses
    obtain ⟨c, rest, hbehind, hsolid⟩ := exists_behind_head h
    obtain ⟨marker, spelling, blanks, rest, cut, comment, hshows⟩ :=
      exists_showsUses (by
        rw [hbehind]
        rintro d ⟨rfl⟩
        exact hsolid) huses
    obtain ⟨hlength, htext⟩ := exists_content_of_showsUses h hshows.isMarker
      hshows.spelling_mem hshows.text_eq
    have hback : ∀ c ∈ (rest ++ (cut ++ comment)).head?,
        isAsciiBlank c = true := hshows.blank_behind
    obtain ⟨first, letters, hletters, hsolidFirst, hfirst⟩ :=
      spelling_head hshows.spelling_mem
    refine ⟨hlength, ?_⟩
    have hwritten := h.content
    cases hcontent : line.content with
    | dash =>
      rw [hcontent, hletters] at htext
      obtain rfl := (List.cons.inj htext).1
      exact absurd (by decide) hfirst
    | scalar scalar =>
      rw [hcontent] at hwritten htext
      obtain ⟨-, htrailing⟩ := scalar_append_inj hwritten hshows.spelling_mem
        hshows.blanks_blank hback
        (fun c hc => Or.inl (h.trailing.blank_head c hc)) htext
      have hhead := h.trailing.solidHead
      rw [htrailing, solidHead_append,
        solidHead_eq_none_iff.mpr hshows.blanks_blank] at hhead
      exact absurd hhead (by simp [solidHead_cons (c := ':') rfl])
    | blockScalar header =>
      rw [hcontent] at hwritten htext
      have hhead := solidHead_header hwritten line.trailing.text
      rw [Content.text, hletters, List.cons_append] at htext
      rw [htext, solidHead_cons hsolidFirst] at hhead
      rcases hhead with heq | heq
      · obtain rfl := Option.some.inj heq
        exact absurd (by decide) hfirst
      · obtain rfl := Option.some.inj heq
        exact absurd (by decide) hfirst
    | entry key beforeColon value =>
      rw [hcontent] at hwritten htext
      obtain ⟨hkey, hseparation, hvalue⟩ := hwritten
      rw [Content.text, List.append_assoc, List.append_assoc,
        List.cons_append] at htext
      obtain ⟨hmem, hcolon⟩ := scalar_append_inj hkey hshows.spelling_mem
        hshows.blanks_blank hback (by
          intro c hc
          cases beforeColon with
          | nil => exact Or.inr (Option.some.inj hc).symm
          | cons blank blanks =>
            obtain rfl := Option.some.inj hc
            exact Or.inl (hseparation.allBlank _ List.mem_cons_self)) htext
      obtain ⟨-, hvalueText⟩ := blanks_append_inj hseparation.allBlank
        hshows.blanks_blank (by rintro c ⟨rfl⟩; rfl) (by rintro c ⟨rfl⟩; rfl)
        hcolon
      exact ⟨key, beforeColon, value, rfl, hmem,
        isInline_of_kept hvalue (List.cons.inj hvalueText).2 hshows.separates
          hshows.not_block hshows.cut_blank hshows.comment_mark⟩
  · rintro ⟨hlength, key, beforeColon, value, hcontent, hkey, hinline⟩
    have hwritten := h.content
    rw [hcontent] at hwritten
    obtain ⟨-, hseparation, hvalue⟩ := hwritten
    obtain ⟨hseparates, hblock⟩ := kept_of_isInline hvalue h.trailing hinline
    have hmarker : IsMarker line.markersText := by
      rw [markersText]
      cases hmarkers : line.markers with
      | nil => exact Or.inl rfl
      | cons spaces markers =>
        rw [hmarkers, List.length_cons] at hlength
        obtain rfl : markers = [] := List.eq_nil_of_length_eq_zero (by omega)
        refine Or.inr ⟨List.replicate spaces ' ', ?_, by simp⟩
        intro c hc
        rw [List.eq_of_mem_replicate hc]
        rfl
    have hbehind : line.behind = line.markersText ++ (key.text ++
        (beforeColon ++ ':' :: (value.text ++ line.trailing.text))) := by
      rw [behind, hcontent, Content.text]
      simp only [List.append_assoc, List.cons_append]
    rw [hbehind]
    exact isUses_of_showsUses hmarker (List.mem_map_of_mem hkey)
      hseparation.allBlank hseparates hblock

end NodeLine

end Bomwerk.Ci.GithubActions
