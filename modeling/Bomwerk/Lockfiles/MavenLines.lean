import Bomwerk.Core.BuildVariables
import Bomwerk.Lockfiles.Maven

/-!
# Lines of a stripped pom

What `strip_comments_and_unwrap_cdata` and `remove_elements` leave of a text
stands on the line where it stood before.  The same runs are made on characters
that carry their line.
-/

namespace Bomwerk.Core.XmlScan

theorem splitAtFirst_eq_some_iff {pattern : List Char} (hpattern : pattern ≠ [])
    {text before rest : List Char} :
    splitAtFirst pattern text = some (before, rest) ↔
      text = before ++ (pattern ++ rest) ∧
        ∀ k < before.length, ¬ pattern <+: text.drop k := by
  induction text generalizing before with
  | nil =>
    rw [splitAtFirst, if_neg hpattern]
    refine iff_of_false (by simp) ?_
    rintro ⟨heq, -⟩
    have hnil := (List.append_eq_nil_iff.mp heq.symm).2
    exact hpattern (List.append_eq_nil_iff.mp hnil).1
  | cons c text ih =>
    rw [splitAtFirst]
    by_cases hstart : pattern <+: c :: text
    · rw [if_pos (List.isPrefixOf_iff_prefix.mpr hstart)]
      obtain ⟨behind, hbehind⟩ := hstart
      constructor
      · intro h
        obtain ⟨rfl, rfl⟩ := Prod.mk.inj (Option.some.inj h)
        refine ⟨?_, by simp⟩
        rw [← hbehind, List.drop_left, List.nil_append]
      · rintro ⟨heq, hearlier⟩
        cases before with
        | nil =>
          rw [heq, List.nil_append, List.drop_left]
        | cons first before =>
          have h := hearlier 0 (by simp)
          exact absurd ⟨behind, hbehind⟩ h
    · rw [if_neg (mt List.isPrefixOf_iff_prefix.mp hstart)]
      cases before with
      | nil =>
        refine iff_of_false ?_ ?_
        · rw [Option.map_eq_some_iff]
          rintro ⟨pair, -, h⟩
          cases h
        · rintro ⟨heq, -⟩
          exact hstart ⟨rest, heq.symm⟩
      | cons first before =>
        rw [Option.map_eq_some_iff]
        constructor
        · rintro ⟨⟨_, _⟩, hsplit, h⟩
          cases h
          obtain ⟨rfl, hearlier⟩ := ih.mp hsplit
          refine ⟨rfl, ?_⟩
          intro k hk
          cases k with
          | zero => exact hstart
          | succ k => exact hearlier k (by simpa using hk)
        · rintro ⟨heq, hearlier⟩
          obtain ⟨rfl, htext⟩ := List.cons.inj heq
          refine ⟨(before, rest), ih.mpr ⟨htext, ?_⟩, rfl⟩
          intro k hk
          exact hearlier (k + 1) (by simpa using hk)

theorem splitAtFirst_eq_none_iff {pattern text : List Char} :
    splitAtFirst pattern text = none ↔ ¬ pattern <:+: text := by
  rw [← containsText_eq_true_iff, containsText, Option.isSome_iff_ne_none,
    not_not]

theorem suffix_of_splitAtFirst {pattern : List Char} (hpattern : pattern ≠ [])
    {text before rest : List Char}
    (h : splitAtFirst pattern text = some (before, rest)) : rest <:+ text := by
  obtain ⟨rfl, -⟩ := (splitAtFirst_eq_some_iff hpattern).mp h
  exact ⟨before ++ pattern, by rw [List.append_assoc]⟩

theorem suffix_of_elementBehind {tagName behind innerText rest : List Char}
    (h : elementBehind? tagName behind = some (some (innerText, rest))) :
    rest <:+ behind := by
  rw [elementBehind?] at h
  split_ifs at h
  split at h
  · cases h
  · rename_i c afterName hdrop
    have hafter : c :: afterName <:+ behind := hdrop ▸ List.drop_suffix _ _
    split_ifs at h
    split at h
    · cases h
    · rename_i attributes afterOpen hopen
      have hopened := suffix_of_splitAtFirst (List.cons_ne_nil _ _) hopen
      have hclosed : rest <:+ afterOpen := by
        split_ifs at h
        · cases h
          exact List.suffix_refl _
        · exact suffix_of_splitAtFirst (List.cons_ne_nil _ _)
            (Option.some.inj h)
      exact (hclosed.trans hopened).trans hafter

/-- An element is cut out of the text around it. -/
theorem exists_span_of_findElement {tagName xml : List Char}
    {element : ElementMatch} (h : findElement tagName xml = some element) :
    ∃ span, span ≠ [] ∧ xml = element.before ++ (span ++ element.rest) := by
  have hfurther : ∀ (c : Char) (text : List Char) (found : ElementMatch),
      (∀ further, findElement tagName text = some further →
        ∃ span, span ≠ [] ∧ text = further.before ++ (span ++ further.rest)) →
      ((findElement tagName text).map fun further =>
        { further with before := c :: further.before }) = some found →
      ∃ span, span ≠ [] ∧ c :: text = found.before ++ (span ++ found.rest) := by
    intro c text found ih hfound
    obtain ⟨further, hfurther, rfl⟩ := Option.map_eq_some_iff.mp hfound
    obtain ⟨span, hspan, heq⟩ := ih further hfurther
    exact ⟨span, hspan, by rw [heq]; rfl⟩
  induction xml generalizing element with
  | nil => cases h
  | cons c text ih =>
    rw [findElement] at h
    dsimp only at h
    split_ifs at h
    · exact hfurther c text element (fun _ => ih) h
    · split at h
      · exact hfurther c text element (fun _ => ih) h
      · rename_i found hbehind
        obtain ⟨⟨innerText, rest⟩, rfl, rfl⟩ := Option.map_eq_some_iff.mp h
        obtain ⟨before, rfl⟩ := suffix_of_elementBehind hbehind
        exact ⟨c :: before, List.cons_ne_nil _ _, rfl⟩

/-! ## Characters with their lines -/

/-- A character and the line on which it stands. -/
abbrev Located := Char × ℕ

def characters (text : List Located) : List Char :=
  text.map Prod.fst

def located : ℕ → List Char → List Located
  | _, [] => []
  | line, c :: text =>
    (c, line) :: located (if c = '\n' then line + 1 else line) text

/-- The newlines of a removed text, on their lines. -/
def locatedNewlines (removed : List Located) : List Located :=
  removed.filter (·.1 = '\n')

/-- `splitAtFirst`, with the lines. -/
def splitLocated (pattern : List Char) (text : List Located) :
    Option (List Located × List Located) :=
  (splitAtFirst pattern (characters text)).map fun (before, _) =>
    (text.take before.length, text.drop (before.length + pattern.length))

/-- `stripFrom`, with the lines. -/
def stripLocatedFrom : (fuel : ℕ) → List Located → List Located
  | 0, _ => []
  | _ + 1, [] => []
  | fuel + 1, c :: text =>
    if commentOpen.isPrefixOf (characters (c :: text)) then
      match splitLocated commentClose ((c :: text).drop 4) with
      | none => []
      | some (comment, rest) =>
        locatedNewlines comment ++ stripLocatedFrom fuel rest
    else if cdataOpen.isPrefixOf (characters (c :: text)) then
      match splitLocated cdataClose ((c :: text).drop 9) with
      | none => []
      | some (content, rest) => content ++ stripLocatedFrom fuel rest
    else c :: stripLocatedFrom fuel text

/-- `stripCommentsAndUnwrapCdata`, with the lines. -/
def stripLocated (xml : List Located) : List Located :=
  stripLocatedFrom xml.length xml

/-- The lines are those of a text that starts on a line. -/
def IsLocated : ℕ → List Located → Prop
  | _, [] => True
  | line, (c, at_) :: text =>
    at_ = line ∧ IsLocated (if c = '\n' then line + 1 else line) text

def lineBehind (line : ℕ) (text : List Located) : ℕ :=
  line + (characters text).count '\n'

theorem characters_located (line : ℕ) (text : List Char) :
    characters (located line text) = text := by
  induction text generalizing line with
  | nil => rfl
  | cons c text ih =>
    rw [located, characters, List.map_cons]
    exact congrArg (c :: ·) (ih _)

theorem isLocated_located (line : ℕ) (text : List Char) :
    IsLocated line (located line text) := by
  induction text generalizing line with
  | nil => trivial
  | cons c text ih => exact ⟨rfl, ih _⟩

theorem lineBehind_cons (line : ℕ) (c : Located) (text : List Located) :
    lineBehind line (c :: text) =
      lineBehind (if c.1 = '\n' then line + 1 else line) text := by
  rw [lineBehind, lineBehind, characters, List.map_cons, List.count_cons]
  by_cases hc : c.1 = '\n'
  · rw [if_pos hc, if_pos (by simpa using hc), characters]
    omega
  · rw [if_neg hc, if_neg (by simpa using hc), characters]
    omega

theorem isLocated_append {line : ℕ} {text rest : List Located} :
    IsLocated line (text ++ rest) ↔
      IsLocated line text ∧ IsLocated (lineBehind line text) rest := by
  induction text generalizing line with
  | nil => exact (and_iff_right trivial).symm
  | cons c text ih =>
    rw [List.cons_append, IsLocated, IsLocated, ih, lineBehind_cons, and_assoc]

theorem isLocated_locatedNewlines {line : ℕ} {removed : List Located}
    (h : IsLocated line removed) : IsLocated line (locatedNewlines removed) := by
  induction removed generalizing line with
  | nil => trivial
  | cons c removed ih =>
    obtain ⟨hline, hrest⟩ := h
    rw [locatedNewlines]
    by_cases hc : c.1 = '\n'
    · rw [List.filter_cons_of_pos (by simpa using hc)]
      exact ⟨hline, ih hrest⟩
    · rw [List.filter_cons_of_neg (by simpa using hc)]
      rw [if_neg hc] at hrest
      exact ih hrest

theorem characters_locatedNewlines (removed : List Located) :
    characters (locatedNewlines removed) = newlinesOf (characters removed) := by
  rw [characters, characters, locatedNewlines, newlinesOf, List.filter_map]
  rfl

theorem lineBehind_locatedNewlines (line : ℕ) (removed : List Located) :
    lineBehind line (locatedNewlines removed) = lineBehind line removed := by
  rw [lineBehind, lineBehind, characters_locatedNewlines, newlinesOf,
    List.count_filter (by decide)]

/-- A character of a text is on the line of the newlines before it. -/
theorem IsLocated.eq_lineNumberAt {line : ℕ} {text : List Located}
    (h : IsLocated line text) {i : ℕ} {c : Located} (hc : text[i]? = some c) :
    c.2 = line + ((characters text).take i).count '\n' := by
  induction text generalizing line i with
  | nil => cases hc
  | cons first text ih =>
    obtain ⟨hline, hrest⟩ := h
    cases i with
    | zero =>
      obtain rfl := Option.some.inj hc
      rw [List.take_zero, List.count_nil]
      exact hline
    | succ i =>
      rw [ih hrest hc, characters, characters, List.map_cons,
        List.take_succ_cons, List.count_cons]
      by_cases hfirst : first.1 = '\n'
      · rw [if_pos hfirst, if_pos (by simpa using hfirst)]
        omega
      · rw [if_neg hfirst, if_neg (by simpa using hfirst)]
        omega

/-! ## Stripping -/

theorem characters_append (text rest : List Located) :
    characters (text ++ rest) = characters text ++ characters rest :=
  List.map_append

theorem splitLocated_eq_none {pattern : List Char} {text : List Located}
    (h : splitLocated pattern text = none) :
    splitAtFirst pattern (characters text) = none :=
  Option.map_eq_none_iff.mp h

/-- A text is split at a marker that spells the pattern. -/
theorem splitLocated_eq_some {pattern : List Char} (hpattern : pattern ≠ [])
    {text before rest : List Located}
    (h : splitLocated pattern text = some (before, rest)) :
    splitAtFirst pattern (characters text) =
        some (characters before, characters rest) ∧
      ∃ marker, characters marker = pattern ∧
        text = before ++ (marker ++ rest) := by
  obtain ⟨⟨charsBefore, charsRest⟩, hsplit, hpair⟩ :=
    Option.map_eq_some_iff.mp h
  obtain ⟨rfl, rfl⟩ := Prod.mk.inj hpair
  obtain ⟨heq, -⟩ := (splitAtFirst_eq_some_iff hpattern).mp hsplit
  have hbefore : characters (text.take charsBefore.length) = charsBefore := by
    rw [characters, List.map_take, ← characters, heq, List.take_left]
  have hmarker : characters ((text.drop charsBefore.length).take
      pattern.length) = pattern := by
    rw [characters, List.map_take, List.map_drop, ← characters, heq,
      List.drop_left, List.take_left]
  have hrest : characters (text.drop (charsBefore.length + pattern.length)) =
      charsRest := by
    rw [characters, List.map_drop, ← characters, heq, ← List.drop_drop,
      List.drop_left, List.drop_left]
  refine ⟨by rw [hbefore, hrest]; exact hsplit, _, hmarker, ?_⟩
  rw [← List.drop_drop, List.take_append_drop, List.take_append_drop]

theorem characters_stripLocatedFrom (fuel : ℕ) (text : List Located) :
    characters (stripLocatedFrom fuel text) =
      stripFrom fuel (characters text) := by
  have hdrop : ∀ (count : ℕ) (text : List Located),
      characters (text.drop count) = (characters text).drop count := by
    intro count text
    rw [characters, characters, List.map_drop]
  induction fuel generalizing text with
  | zero => rfl
  | succ fuel ih =>
    cases text with
    | nil => rfl
    | cons c text =>
      have hcons : characters (c :: text) = c.1 :: characters text := rfl
      rw [stripLocatedFrom, hcons, stripFrom, ← hcons]
      split_ifs with hcomment hcdata
      · rw [← hdrop]
        cases hsplit : splitLocated commentClose ((c :: text).drop 4) with
        | none => rw [splitLocated_eq_none hsplit]; rfl
        | some pair =>
          obtain ⟨hplain, -⟩ :=
            splitLocated_eq_some (by decide) hsplit
          rw [hplain]
          dsimp only
          rw [characters_append, characters_locatedNewlines, ih]
      · rw [← hdrop]
        cases hsplit : splitLocated cdataClose ((c :: text).drop 9) with
        | none => rw [splitLocated_eq_none hsplit]; rfl
        | some pair =>
          obtain ⟨hplain, -⟩ :=
            splitLocated_eq_some (by decide) hsplit
          rw [hplain]
          dsimp only
          rw [characters_append, ih]
      · rw [characters, List.map_cons, ← characters, ih]

theorem lineBehind_of_newline_notMem {line : ℕ} {marker : List Located}
    (h : '\n' ∉ characters marker) : lineBehind line marker = line := by
  rw [lineBehind, List.count_eq_zero_of_not_mem h, Nat.add_zero]

theorem isLocated_around_marker {line : ℕ} {before marker rest : List Located}
    (hmarker : '\n' ∉ characters marker)
    (h : IsLocated line (before ++ (marker ++ rest))) :
    IsLocated line before ∧ IsLocated (lineBehind line before) rest := by
  obtain ⟨hbefore, hbehind⟩ := isLocated_append.mp h
  have hrest := (isLocated_append.mp hbehind).2
  rw [lineBehind_of_newline_notMem hmarker] at hrest
  exact ⟨hbefore, hrest⟩

theorem isLocated_drop_of_isPrefixOf {line : ℕ} {opening : List Char}
    (hopening : '\n' ∉ opening) {text : List Located}
    (hstart : opening.isPrefixOf (characters text) = true)
    (h : IsLocated line text) : IsLocated line (text.drop opening.length) := by
  obtain ⟨rest, hrest⟩ := List.isPrefixOf_iff_prefix.mp hstart
  have hmarker : characters (text.take opening.length) = opening := by
    rw [characters, List.map_take, ← characters, ← hrest, List.take_left]
  rw [← List.take_append_drop opening.length text, isLocated_append,
    lineBehind_of_newline_notMem (by rwa [hmarker])] at h
  exact h.2

theorem isLocated_stripLocatedFrom {fuel line : ℕ} {text : List Located}
    (h : IsLocated line text) : IsLocated line (stripLocatedFrom fuel text) := by
  induction fuel generalizing line text with
  | zero => trivial
  | succ fuel ih =>
    cases text with
    | nil => trivial
    | cons c text =>
      rw [stripLocatedFrom]
      split_ifs with hcomment hcdata
      · have hinside : IsLocated line ((c :: text).drop 4) :=
          isLocated_drop_of_isPrefixOf (by decide) hcomment h
        cases hsplit : splitLocated commentClose ((c :: text).drop 4) with
        | none => trivial
        | some pair =>
          obtain ⟨-, marker, hmarker, heq⟩ :=
            splitLocated_eq_some (by decide) hsplit
          rw [heq] at hinside
          obtain ⟨hbefore, hrest⟩ := isLocated_around_marker
            (by rw [hmarker]; decide) hinside
          dsimp only
          rw [isLocated_append, lineBehind_locatedNewlines]
          exact ⟨isLocated_locatedNewlines hbefore, ih hrest⟩
      · have hinside : IsLocated line ((c :: text).drop 9) :=
          isLocated_drop_of_isPrefixOf (by decide) hcdata h
        cases hsplit : splitLocated cdataClose ((c :: text).drop 9) with
        | none => trivial
        | some pair =>
          obtain ⟨-, marker, hmarker, heq⟩ :=
            splitLocated_eq_some (by decide) hsplit
          rw [heq] at hinside
          obtain ⟨hbefore, hrest⟩ := isLocated_around_marker
            (by rw [hmarker]; decide) hinside
          dsimp only
          rw [isLocated_append]
          exact ⟨hbefore, ih hrest⟩
      · exact ⟨h.1, ih h.2⟩

theorem stripLocatedFrom_sublist (fuel : ℕ) (text : List Located) :
    (stripLocatedFrom fuel text).Sublist text := by
  induction fuel generalizing text with
  | zero => exact List.nil_sublist _
  | succ fuel ih =>
    cases text with
    | nil => exact List.Sublist.slnil
    | cons c text =>
      rw [stripLocatedFrom]
      split_ifs with hcomment hcdata
      · cases hsplit : splitLocated commentClose ((c :: text).drop 4) with
        | none => exact List.nil_sublist _
        | some pair =>
          obtain ⟨-, marker, -, heq⟩ :=
            splitLocated_eq_some (by decide) hsplit
          refine List.Sublist.trans ?_ (List.drop_sublist 4 (c :: text))
          rw [heq]
          exact List.filter_sublist.append
            ((ih _).trans (List.sublist_append_right _ _))
      · cases hsplit : splitLocated cdataClose ((c :: text).drop 9) with
        | none => exact List.nil_sublist _
        | some pair =>
          obtain ⟨-, marker, -, heq⟩ :=
            splitLocated_eq_some (by decide) hsplit
          refine List.Sublist.trans ?_ (List.drop_sublist 9 (c :: text))
          rw [heq]
          exact (List.Sublist.refl _).append
            ((ih _).trans (List.sublist_append_right _ _))
      · exact (ih text).cons_cons c

/-! ## Pieces of a text -/

/-- What stands in a text, read from left to right. -/
inductive Piece where
  | text (c : Char)
  | comment (body : List Char)
  | cdata (content : List Char)
  | unterminatedComment (rest : List Char)
  | unterminatedCdata (rest : List Char)

/-- The pattern stands for the first time behind the body. -/
def IsFree (pattern body : List Char) : Prop :=
  ∀ k < body.length, ¬ pattern <+: (body ++ pattern).drop k

inductive Lexes : List Char → List Piece → Prop
  | nil : Lexes [] []
  | text {c : Char} {rest : List Char} {pieces : List Piece} :
      ¬ commentOpen <+: c :: rest → ¬ cdataOpen <+: c :: rest →
        Lexes rest pieces → Lexes (c :: rest) (.text c :: pieces)
  | comment {body rest : List Char} {pieces : List Piece} :
      IsFree commentClose body → Lexes rest pieces →
        Lexes (commentOpen ++ (body ++ (commentClose ++ rest)))
          (.comment body :: pieces)
  | cdata {content rest : List Char} {pieces : List Piece} :
      IsFree cdataClose content → Lexes rest pieces →
        Lexes (cdataOpen ++ (content ++ (cdataClose ++ rest)))
          (.cdata content :: pieces)
  | unterminatedComment {rest : List Char} :
      ¬ commentClose <:+: rest →
        Lexes (commentOpen ++ rest) [.unterminatedComment rest]
  | unterminatedCdata {rest : List Char} :
      ¬ cdataClose <:+: rest →
        Lexes (cdataOpen ++ rest) [.unterminatedCdata rest]

def Piece.stripped : Piece → List Char
  | .text c => [c]
  | .comment body => newlinesOf body
  | .cdata content => content
  | .unterminatedComment _ => []
  | .unterminatedCdata _ => []

/-- What is left of a piece when nothing but comments goes. -/
def Piece.withoutComment : Piece → List Char
  | .unterminatedCdata rest => rest
  | piece => piece.stripped

def Piece.IsTerminated : Piece → Prop
  | .unterminatedComment _ => False
  | .unterminatedCdata _ => False
  | _ => True

/-- No comment and no CDATA section is open at the end of the text. -/
def IsClosed (text : List Char) : Prop :=
  ∃ pieces, Lexes text pieces ∧ ∀ piece ∈ pieces, piece.IsTerminated

theorem splitAtFirst_of_isFree {pattern : List Char} (hpattern : pattern ≠ [])
    {body : List Char} (hfree : IsFree pattern body) (rest : List Char) :
    splitAtFirst pattern (body ++ (pattern ++ rest)) = some (body, rest) := by
  rw [splitAtFirst_eq_some_iff hpattern]
  refine ⟨rfl, ?_⟩
  intro k hk hstart
  apply hfree k hk
  rw [← List.append_assoc, List.drop_append_of_le_length (by
    rw [List.length_append]; omega)] at hstart
  refine List.prefix_of_prefix_length_le hstart (List.prefix_append _ _) ?_
  rw [List.length_drop, List.length_append]
  omega

theorem isFree_of_splitAtFirst {pattern : List Char} (hpattern : pattern ≠ [])
    {text body rest : List Char}
    (h : splitAtFirst pattern text = some (body, rest)) :
    text = body ++ (pattern ++ rest) ∧ IsFree pattern body := by
  obtain ⟨rfl, hearlier⟩ := (splitAtFirst_eq_some_iff hpattern).mp h
  refine ⟨rfl, ?_⟩
  intro k hk hstart
  apply hearlier k hk
  rw [← List.append_assoc, List.drop_append_of_le_length (by
    rw [List.length_append]; omega)]
  exact hstart.trans (List.prefix_append _ _)

theorem isPrefixOf_append (opening rest : List Char) :
    opening.isPrefixOf (opening ++ rest) = true :=
  List.isPrefixOf_iff_prefix.mpr (List.prefix_append opening rest)

theorem stripFrom_of_lexes {xml : List Char} {pieces : List Piece}
    (h : Lexes xml pieces) {fuel : ℕ} (hfuel : xml.length ≤ fuel) :
    stripFrom fuel xml = pieces.flatMap Piece.stripped := by
  have hcomment : ∀ (fuel : ℕ) (rest : List Char),
      stripFrom (fuel + 1) (commentOpen ++ rest) =
        (splitAtFirst commentClose rest).elim []
          fun split => newlinesOf split.1 ++ stripFrom fuel split.2 := by
    intro fuel rest
    refine (if_pos (isPrefixOf_append commentOpen rest)).trans ?_
    change _ = (splitAtFirst commentClose ((commentOpen ++ rest).drop 4)).elim
      _ _
    split <;> rename_i hsplit <;> exact hsplit ▸ rfl
  have hcdata : ∀ (fuel : ℕ) (rest : List Char),
      stripFrom (fuel + 1) (cdataOpen ++ rest) =
        (splitAtFirst cdataClose rest).elim []
          fun split => split.1 ++ stripFrom fuel split.2 := by
    intro fuel rest
    refine (if_neg ?_).trans
      ((if_pos (isPrefixOf_append cdataOpen rest)).trans ?_)
    · rw [List.isPrefixOf_iff_prefix]
      rintro ⟨behind, heq⟩
      cases heq
    · change _ = (splitAtFirst cdataClose ((cdataOpen ++ rest).drop 9)).elim
        _ _
      split <;> rename_i hsplit <;> exact hsplit ▸ rfl
  induction h generalizing fuel with
  | nil => cases fuel <;> rfl
  | @text c rest pieces hopen hcdataOpen _ ih =>
    obtain ⟨fuel, rfl⟩ := Nat.exists_eq_succ_of_ne_zero
      (n := fuel) (by rw [List.length_cons] at hfuel; omega)
    rw [stripFrom, if_neg (mt List.isPrefixOf_iff_prefix.mp hopen),
      if_neg (mt List.isPrefixOf_iff_prefix.mp hcdataOpen),
      ih (by simpa using hfuel)]
    rfl
  | @comment body rest pieces hfree _ ih =>
    simp only [List.length_append] at hfuel
    obtain ⟨fuel, rfl⟩ := Nat.exists_eq_succ_of_ne_zero
      (n := fuel) (by have : commentOpen.length = 4 := rfl; omega)
    rw [hcomment, splitAtFirst_of_isFree (by decide) hfree, Option.elim_some]
    dsimp only
    rw [ih (by have : commentOpen.length = 4 := rfl; omega)]
    rfl
  | @cdata content rest pieces hfree _ ih =>
    simp only [List.length_append] at hfuel
    obtain ⟨fuel, rfl⟩ := Nat.exists_eq_succ_of_ne_zero
      (n := fuel) (by have : cdataOpen.length = 9 := rfl; omega)
    rw [hcdata, splitAtFirst_of_isFree (by decide) hfree, Option.elim_some]
    dsimp only
    rw [ih (by have : cdataOpen.length = 9 := rfl; omega)]
    rfl
  | @unterminatedComment rest hnone =>
    obtain ⟨fuel, rfl⟩ := Nat.exists_eq_succ_of_ne_zero
      (n := fuel) (by rw [List.length_append] at hfuel
                      have : commentOpen.length = 4 := rfl; omega)
    rw [hcomment, splitAtFirst_eq_none_iff.mpr hnone]
    rfl
  | @unterminatedCdata rest hnone =>
    obtain ⟨fuel, rfl⟩ := Nat.exists_eq_succ_of_ne_zero
      (n := fuel) (by rw [List.length_append] at hfuel
                      have : cdataOpen.length = 9 := rfl; omega)
    rw [hcdata, splitAtFirst_eq_none_iff.mpr hnone]
    rfl

theorem strip_of_lexes {xml : List Char} {pieces : List Piece}
    (h : Lexes xml pieces) :
    stripCommentsAndUnwrapCdata xml = pieces.flatMap Piece.stripped :=
  stripFrom_of_lexes h (le_refl _)

/-- Every text has pieces. -/
theorem exists_lexes (xml : List Char) : ∃ pieces, Lexes xml pieces := by
  induction hlength : xml.length using Nat.strong_induction_on generalizing xml
  rename_i length ih
  subst hlength
  by_cases hcomment : commentOpen <+: xml
  · obtain ⟨text, rfl⟩ := hcomment
    cases hsplit : splitAtFirst commentClose text with
    | none =>
      exact ⟨_, .unterminatedComment (splitAtFirst_eq_none_iff.mp hsplit)⟩
    | some pair =>
      obtain ⟨rfl, hfree⟩ := isFree_of_splitAtFirst (by decide) hsplit
      obtain ⟨pieces, hpieces⟩ := ih pair.2.length (by
        simp only [List.length_append]
        have : commentOpen.length = 4 := rfl
        omega) pair.2 rfl
      exact ⟨_, .comment hfree hpieces⟩
  by_cases hcdata : cdataOpen <+: xml
  · obtain ⟨text, rfl⟩ := hcdata
    cases hsplit : splitAtFirst cdataClose text with
    | none =>
      exact ⟨_, .unterminatedCdata (splitAtFirst_eq_none_iff.mp hsplit)⟩
    | some pair =>
      obtain ⟨rfl, hfree⟩ := isFree_of_splitAtFirst (by decide) hsplit
      obtain ⟨pieces, hpieces⟩ := ih pair.2.length (by
        simp only [List.length_append]
        have : cdataOpen.length = 9 := rfl
        omega) pair.2 rfl
      exact ⟨_, .cdata hfree hpieces⟩
  cases xml with
  | nil => exact ⟨[], .nil⟩
  | cons c text =>
    obtain ⟨pieces, hpieces⟩ := ih text.length (by simp) text rfl
    exact ⟨_, .text hcomment hcdata hpieces⟩

/-- An opening does not start in front of another one. -/
theorem not_opening_prefix_append {opening text tail : List Char} {c : Char}
    (honce : '<' ∉ opening.tail) (h : ¬ opening <+: c :: text) :
    ¬ opening <+: c :: (text ++ '<' :: tail) := by
  intro hstart
  have hboth : c :: text <+: c :: (text ++ '<' :: tail) :=
    ⟨'<' :: tail, rfl⟩
  rcases List.prefix_or_prefix_of_prefix hstart hboth with hinside | houtside
  · exact h hinside
  · obtain ⟨behind, rfl⟩ := houtside
    cases behind with
    | nil =>
      apply h
      simp
    | cons first behind =>
      obtain ⟨after, hafter⟩ := hstart
      have hfirst : first = '<' := by
        have heq := List.append_cancel_left
          ((List.append_assoc (c :: text) _ _).symm.trans hafter)
        exact (List.cons.inj heq).1
      apply honce
      rw [hfirst, List.cons_append, List.tail_cons]
      exact List.mem_append_right _ List.mem_cons_self

/-- A CDATA section behind a closed text is a piece of its own. -/
theorem lexes_append_cdata {before content rest : List Char}
    {pieces restPieces : List Piece} (hbefore : Lexes before pieces)
    (hclosed : ∀ piece ∈ pieces, piece.IsTerminated)
    (hfree : IsFree cdataClose content) (hrest : Lexes rest restPieces) :
    Lexes (before ++ (cdataOpen ++ (content ++ (cdataClose ++ rest))))
      (pieces ++ .cdata content :: restPieces) := by
  induction hbefore with
  | nil => exact .cdata hfree hrest
  | text hcomment hcdata _ ih =>
    exact .text (not_opening_prefix_append (by decide) hcomment)
      (not_opening_prefix_append (by decide) hcdata)
      (ih fun piece hpiece => hclosed piece (List.mem_cons_of_mem _ hpiece))
  | comment hbody _ ih =>
    simp only [List.append_assoc] at ih ⊢
    exact .comment hbody
      (ih fun piece hpiece => hclosed piece (List.mem_cons_of_mem _ hpiece))
  | cdata hbody _ ih =>
    simp only [List.append_assoc] at ih ⊢
    exact .cdata hbody
      (ih fun piece hpiece => hclosed piece (List.mem_cons_of_mem _ hpiece))
  | unterminatedComment _ => exact (hclosed _ List.mem_cons_self).elim
  | unterminatedCdata _ => exact (hclosed _ List.mem_cons_self).elim

theorem strip_append_cdata {before content rest : List Char}
    (hbefore : IsClosed before) (hfree : IsFree cdataClose content) :
    stripCommentsAndUnwrapCdata
        (before ++ (cdataOpen ++ (content ++ (cdataClose ++ rest)))) =
      stripCommentsAndUnwrapCdata before ++
        (content ++ stripCommentsAndUnwrapCdata rest) := by
  obtain ⟨pieces, hlexes, hclosed⟩ := hbefore
  obtain ⟨restPieces, hrest⟩ := exists_lexes rest
  rw [strip_of_lexes (lexes_append_cdata hlexes hclosed hfree hrest),
    strip_of_lexes hlexes, strip_of_lexes hrest, List.flatMap_append,
    List.flatMap_cons]
  rfl

end Bomwerk.Core.XmlScan

namespace Bomwerk.Lockfiles.Maven

open Bomwerk.Core Bomwerk.Core.XmlScan

/-- `removeElementsFrom`, with the lines. -/
def removeElementsLocatedFrom (tagName : List Char) :
    (fuel : ℕ) → List Located → List Located
  | 0, _ => []
  | fuel + 1, xml =>
    match findElement tagName (characters xml) with
    | none => xml
    | some element =>
      let behind := xml.drop element.before.length
      let spanLength :=
        xml.length - element.before.length - element.rest.length
      xml.take element.before.length ++
        (locatedNewlines (behind.take spanLength) ++
          removeElementsLocatedFrom tagName fuel (behind.drop spanLength))

/-- `removeElements`, with the lines. -/
def removeElementsLocated (xml : List Located) (tagName : String) :
    List Located :=
  removeElementsLocatedFrom tagName.toList xml.length xml

theorem length_characters (text : List Located) :
    (characters text).length = text.length :=
  List.length_map _

theorem characters_removeElementsLocatedFrom (tagName : List Char) (fuel : ℕ)
    (xml : List Located) :
    characters (removeElementsLocatedFrom tagName fuel xml) =
      removeElementsFrom tagName fuel (characters xml) := by
  induction fuel generalizing xml with
  | zero => rfl
  | succ fuel ih =>
    rw [removeElementsLocatedFrom, removeElementsFrom]
    cases hfind : findElement tagName (characters xml) with
    | none => rfl
    | some element =>
      obtain ⟨span, -, heq⟩ := exists_span_of_findElement hfind
      have hlength : xml.length - element.before.length -
          element.rest.length = span.length := by
        rw [← length_characters, heq, List.length_append, List.length_append]
        omega
      have hbehind : (characters xml).drop element.before.length =
          span ++ element.rest := by
        rw [heq, List.drop_left]
      have hrest : characters ((xml.drop element.before.length).drop
          span.length) = element.rest := by
        rw [characters, List.map_drop, List.map_drop, ← characters,
          hbehind, List.drop_left]
      have hspan : characters ((xml.drop element.before.length).take
          span.length) = spanOf (characters xml) element := by
        rw [spanOf, length_characters, hlength, characters, List.map_take,
          List.map_drop, ← characters]
      have hbefore : characters (xml.take element.before.length) =
          element.before := by
        rw [characters, List.map_take, ← characters, heq, List.take_left]
      dsimp only
      rw [hlength, characters_append, characters_append,
        characters_locatedNewlines, ih, hbefore, hspan, hrest,
        List.append_assoc]

theorem isLocated_removeElementsLocatedFrom {tagName : List Char} {fuel : ℕ}
    {line : ℕ} {xml : List Located} (h : IsLocated line xml) :
    IsLocated line (removeElementsLocatedFrom tagName fuel xml) := by
  induction fuel generalizing line xml with
  | zero => trivial
  | succ fuel ih =>
    rw [removeElementsLocatedFrom]
    cases findElement tagName (characters xml) with
    | none => exact h
    | some element =>
      dsimp only
      generalize xml.length - element.before.length - element.rest.length =
        spanLength
      rw [← List.take_append_drop element.before.length xml,
        ← List.take_append_drop spanLength
          (xml.drop element.before.length), isLocated_append,
        isLocated_append] at h
      rw [isLocated_append, isLocated_append, lineBehind_locatedNewlines]
      exact ⟨h.1, isLocated_locatedNewlines h.2.1, ih h.2.2⟩

/-! ## A pom without comments and elements -/

/-- What is left of a text, with the lines. -/
def remainingLocated (tagNames : List String) (xml : List Char) :
    List Located :=
  tagNames.foldl removeElementsLocated (stripLocated (located 1 xml))

def remaining (tagNames : List String) (xml : List Char) : List Char :=
  tagNames.foldl removeElements (stripCommentsAndUnwrapCdata xml)

theorem characters_remainingLocated (tagNames : List String)
    (xml : List Char) :
    characters (remainingLocated tagNames xml) = remaining tagNames xml := by
  have hrun : ∀ text : List Located,
      characters (tagNames.foldl removeElementsLocated text) =
        tagNames.foldl removeElements (characters text) := by
    induction tagNames with
    | nil => exact fun _ => rfl
    | cons tagName tagNames ih =>
      intro text
      rw [List.foldl_cons, List.foldl_cons, ih, removeElementsLocated,
        characters_removeElementsLocatedFrom, removeElements,
        length_characters]
  rw [remainingLocated, remaining, hrun, stripLocated,
    characters_stripLocatedFrom, characters_located, ← length_characters,
    characters_located, stripCommentsAndUnwrapCdata]

theorem isLocated_remainingLocated (tagNames : List String)
    (xml : List Char) : IsLocated 1 (remainingLocated tagNames xml) := by
  have hrun : ∀ text : List Located, IsLocated 1 text →
      IsLocated 1 (tagNames.foldl removeElementsLocated text) := by
    induction tagNames with
    | nil => exact fun _ h => h
    | cons tagName tagNames ih =>
      intro text h
      exact ih _ (isLocated_removeElementsLocatedFrom h)
  exact hrun _ (isLocated_stripLocatedFrom (isLocated_located 1 xml))

theorem removeElementsLocatedFrom_sublist {tagName : List Char} {fuel : ℕ}
    {xml : List Located} :
    (removeElementsLocatedFrom tagName fuel xml).Sublist xml := by
  induction fuel generalizing xml with
  | zero => exact List.nil_sublist _
  | succ fuel ih =>
    rw [removeElementsLocatedFrom]
    cases findElement tagName (characters xml) with
    | none => exact List.Sublist.refl _
    | some element =>
      dsimp only
      generalize xml.length - element.before.length - element.rest.length =
        spanLength
      have hnewlines : (locatedNewlines
          ((xml.drop element.before.length).take spanLength)).Sublist
            ((xml.drop element.before.length).take spanLength) :=
        List.filter_sublist
      have hbehind := hnewlines.append
        (@ih ((xml.drop element.before.length).drop spanLength))
      rw [List.take_append_drop] at hbehind
      have hwhole := (List.Sublist.refl
        (xml.take element.before.length)).append hbehind
      rwa [List.take_append_drop] at hwhole

theorem remainingLocated_sublist (tagNames : List String) (xml : List Char) :
    (remainingLocated tagNames xml).Sublist (located 1 xml) := by
  have hrun : ∀ text : List Located,
      (tagNames.foldl removeElementsLocated text).Sublist text := by
    induction tagNames with
    | nil => exact fun _ => List.Sublist.refl _
    | cons tagName tagNames ih =>
      exact fun text => (ih _).trans removeElementsLocatedFrom_sublist
  exact (hrun _).trans (stripLocatedFrom_sublist _ _)

/-- What stripping and removing owe to a text: each character that is left is
one of the text, on the line that a count in what is left gives; what goes is
the comments, the marks of the CDATA sections and what an unterminated one of
them swallows; and what is inside a CDATA section means nothing outside. -/
structure KeepsPositions (xml : List Char) : Prop where
  located_line : ∀ i c, (located 1 xml)[i]? = some c →
    xml[i]? = some c.1 ∧ lineNumberAt (xml.take i) = c.2
  sublist : ∀ tagNames, (remainingLocated tagNames xml).Sublist (located 1 xml)
  characters_eq : ∀ tagNames,
    characters (remainingLocated tagNames xml) = remaining tagNames xml
  line : ∀ tagNames i c, (remainingLocated tagNames xml)[i]? = some c →
    lineNumberAt ((remaining tagNames xml).take i) = c.2
  exists_pieces : ∃ pieces, Lexes xml pieces
  stripped : ∀ pieces, Lexes xml pieces →
    stripCommentsAndUnwrapCdata xml = pieces.flatMap Piece.stripped
  isolated : ∀ before content rest,
    xml = before ++ (cdataOpen ++ (content ++ (cdataClose ++ rest))) →
      IsClosed before → IsFree cdataClose content →
        stripCommentsAndUnwrapCdata xml = stripCommentsAndUnwrapCdata before ++
            (content ++ stripCommentsAndUnwrapCdata rest)

theorem keepsPositions (xml : List Char) : KeepsPositions xml where
  located_line i c hc := by
    have hline := (isLocated_located 1 xml).eq_lineNumberAt hc
    rw [characters_located] at hline
    refine ⟨?_, hline.symm⟩
    have hmap : (characters (located 1 xml))[i]? = some c.1 := by
      rw [characters, List.getElem?_map, hc, Option.map_some]
    rwa [characters_located] at hmap
  sublist tagNames := remainingLocated_sublist tagNames xml
  characters_eq tagNames := characters_remainingLocated tagNames xml
  line tagNames i c hc := by
    have hline := (isLocated_remainingLocated tagNames xml).eq_lineNumberAt hc
    rw [characters_remainingLocated] at hline
    exact hline.symm
  exists_pieces := exists_lexes xml
  stripped pieces := strip_of_lexes
  isolated before content rest := by
    rintro rfl hbefore hfree
    exact strip_append_cdata hbefore hfree

/-- An unterminated CDATA section is swallowed, and it is no comment. -/
theorem not_removes_only_comments :
    ¬ ∀ pieces, Lexes (cdataOpen ++ ['a']) pieces →
      stripCommentsAndUnwrapCdata (cdataOpen ++ ['a']) =
        pieces.flatMap Piece.withoutComment := by
  intro h
  have hnone : ¬ cdataClose <:+: ['a'] := by decide
  exact absurd (h _ (.unterminatedCdata hnone)) (by decide)

end Bomwerk.Lockfiles.Maven
