import Bomwerk.Support.CDirectives
import Mathlib.Data.List.TakeWhile
import Mathlib.Tactic.Tauto

/-!
# The directive at a place

A `#` makes a directive exactly where the text in front of it leaves the
preprocessor outside comments and at the front of a line, and the directive is
then read from what stands behind it.
-/

namespace Bomwerk.Support.CDirectives

theorem placed_append (offset : Nat) (left right : List UInt8) :
    placed offset (left ++ right) =
      placed offset left ++ placed (offset + left.length) right := by
  induction left generalizing offset with
  | nil => rfl
  | cons character left ih =>
    have hoffset : offset + (left.length + 1) = offset + 1 + left.length := by
      omega
    simp only [List.cons_append, placed, ih, List.length_cons, hoffset]

theorem characters_placed (offset : Nat) (text : List UInt8) :
    characters (placed offset text) = text := by
  induction text generalizing offset with
  | nil => rfl
  | cons character text ih =>
    have htail := ih (offset + 1)
    simp only [characters] at htail
    simp [characters, placed, htail]

theorem offset_of_mem_placed {offset : Nat} {text : List UInt8} {item : Placed}
    (h : item ∈ placed offset text) :
    offset ≤ item.offset ∧ item.offset < offset + text.length := by
  induction text generalizing offset with
  | nil => cases h
  | cons character text ih =>
    rw [placed, List.mem_cons] at h
    rw [List.length_cons]
    rcases h with rfl | h
    · simp
    · have htail := ih h
      omega

theorem mem_placed_character {offset : Nat} {text : List UInt8} {item : Placed}
    (h : item ∈ placed offset text) : item.character ∈ text := by
  have hmem : item.character ∈ characters (placed offset text) :=
    List.mem_map_of_mem h
  rwa [characters_placed] at hmem

/-- A step of the joiner drops what it holds and the newline, or keeps all. -/
theorem joiner_step (state : Joining) (item : Placed) :
    (state ≠ .plain ∧ item.character = newline ∧
      joiner.step state item = (.plain, [])) ∨
    ((state = .plain ∨ item.character ≠ newline) ∧
      (joiner.step state item).2 ++ (joiner.step state item).1.held =
        state.held ++ [item]) := by
  obtain ⟨offset, character⟩ := item
  by_cases hjoins : state ≠ .plain ∧ character = newline
  · left
    exact ⟨hjoins.1, hjoins.2, by simp [joiner, hjoins]⟩
  · right
    refine ⟨by tauto, ?_⟩
    simp only [joiner, if_neg hjoins]
    by_cases hbackslash : character = '\\'.toUInt8
    · simp [hbackslash, Joining.held]
    · rw [if_neg hbackslash]
      cases state with
      | plain => simp [Joining.held]
      | carriageReturn backslash carriage => simp [Joining.held]
      | backslash backslash =>
        by_cases hcarriage : character = '\r'.toUInt8
        · simp [hcarriage, Joining.held]
        · simp [hcarriage, Joining.held]

theorem joiner_step_plain (state : Joining) {item : Placed}
    (hbackslash : item.character ≠ '\\'.toUInt8)
    (hcarriage : item.character ≠ '\r'.toUInt8) :
    (joiner.step state item).1 = .plain := by
  by_cases hjoins : state ≠ .plain ∧ item.character = newline
  · simp only [joiner, if_pos hjoins]
  · simp only [joiner, if_neg hjoins, if_neg hbackslash]
    cases state with
    | plain => rfl
    | carriageReturn backslash carriage => rfl
    | backslash backslash => simp only [if_neg hcarriage]

theorem joiner_step_of_plain {item : Placed}
    (hbackslash : item.character ≠ '\\'.toUInt8) :
    joiner.step .plain item = (.plain, [item]) := by
  simp [joiner, hbackslash, Joining.held]

/-- The joiner puts out and holds no other offsets than those of its items. -/
theorem joiner_offsets (property : Nat → Prop) {items : List Placed}
    (hitems : ∀ item ∈ items, property item.offset) :
    (∀ item ∈ joiner.output .plain items, property item.offset) ∧
      ∀ item ∈ (joiner.after .plain items).held, property item.offset := by
  apply joiner.output_flush_forall fun item => property item.offset
  · simp [joiner, Joining.held]
  · intro item hmem state hheld
    rcases joiner_step state item with ⟨_, _, hstep⟩ | ⟨_, hkept⟩
    · rw [hstep]
      simp [joiner, Joining.held]
    · have hall : ∀ other ∈ (joiner.step state item).2 ++
          (joiner.step state item).1.held, property other.offset := by
        intro other hother
        rw [hkept] at hother
        rcases List.mem_append.mp hother with hold | hnew
        · exact hheld other hold
        · rw [List.mem_singleton.mp hnew]
          exact hitems item hmem
      exact ⟨fun other hother => hall other (List.mem_append_left _ hother),
        fun other hother => hall other (List.mem_append_right _ hother)⟩

theorem joiner_run_offsets (property : Nat → Prop) {items : List Placed}
    (hitems : ∀ item ∈ items, property item.offset) :
    ∀ item ∈ joiner.run .plain items, property item.offset := by
  obtain ⟨hput, hheld⟩ := joiner_offsets property hitems
  intro item hmem
  rcases List.mem_append.mp hmem with hmem | hmem
  · exact hput item hmem
  · exact hheld item hmem

theorem readCode_offset {item put : Placed} (h : put ∈ (readCode item).2) :
    put = item := by
  unfold readCode at h
  split at h
  · cases h
  · split at h <;> exact List.mem_singleton.mp h

theorem readCode_flush {item held : Placed}
    (h : held ∈ (readCode item).1.held) :
    held.offset = item.offset := by
  unfold readCode at h
  split at h
  · rw [List.mem_singleton.mp h]
  · split at h <;> cases h

theorem uncommenter_step_offsets {property : Nat → Prop} {state : Reading}
    {item : Placed} (hitem : property item.offset)
    (hheld : ∀ held ∈ state.held, property held.offset) :
    (∀ put ∈ (uncommenter.step state item).2, property put.offset) ∧
      ∀ held ∈ (uncommenter.step state item).1.held, property held.offset := by
  have hcode : (∀ put ∈ (readCode item).2, property put.offset) ∧
      ∀ held ∈ (readCode item).1.held, property held.offset :=
    ⟨fun put hput => readCode_offset hput ▸ hitem,
      fun held hmem => (readCode_flush hmem).symm ▸ hitem⟩
  cases state with
  | code => exact hcode
  | slash offset =>
    have hoffset : property offset := hheld ⟨offset, '/'.toUInt8⟩ (by
      simp [Reading.held])
    by_cases hline : item.character = '/'.toUInt8
    · simp [uncommenter, hline, hoffset, Reading.held]
    · by_cases hblock : item.character = '*'.toUInt8
      · have hne : '*'.toUInt8 ≠ '/'.toUInt8 := by decide
        simp [uncommenter, hblock, hne, hoffset, Reading.held]
      · simp only [uncommenter, if_neg hline, if_neg hblock]
        refine ⟨?_, hcode.2⟩
        rintro put (_ | ⟨_, hput⟩)
        · exact hoffset
        · exact hcode.1 put hput
  | lineComment =>
    by_cases hend : item.character = newline
    · simp [uncommenter, hend, hitem, Reading.held]
    · simp [uncommenter, hend, Reading.held]
  | blockComment =>
    by_cases hstar : item.character = '*'.toUInt8 <;>
      simp [uncommenter, hstar, Reading.held]
  | star =>
    by_cases hslash : item.character = '/'.toUInt8
    · simp [uncommenter, hslash, Reading.held]
    · simp only [uncommenter, if_neg hslash]
      by_cases hstar : item.character = '*'.toUInt8 <;>
        simp [hstar, Reading.held]
  | literal delimiter =>
    by_cases hend : item.character = newline ∨ item.character = delimiter
    · simp [uncommenter, hend, hitem, Reading.held]
    · by_cases hescape : item.character = '\\'.toUInt8
      · simp only [uncommenter, if_neg hend, if_pos hescape]
        simp [hitem, Reading.held]
      · simp [uncommenter, hend, hescape, hitem, Reading.held]
  | escape delimiter =>
    by_cases hend : item.character = newline <;>
      simp [uncommenter, hend, hitem, Reading.held]

/-- The comment reader puts out and holds no other offsets than those of its
items and of what it held. -/
theorem uncommenter_offsets (property : Nat → Prop) {state : Reading}
    {items : List Placed}
    (hheld : ∀ held ∈ state.held, property held.offset)
    (hitems : ∀ item ∈ items, property item.offset) :
    (∀ item ∈ uncommenter.output state items, property item.offset) ∧
      ∀ held ∈ (uncommenter.after state items).held, property held.offset :=
  uncommenter.output_flush_forall (fun item => property item.offset) hheld
    fun item hmem _ hheld => uncommenter_step_offsets (hitems item hmem) hheld

theorem uncommenter_run_offsets (property : Nat → Prop) {state : Reading}
    {items : List Placed}
    (hheld : ∀ held ∈ state.held, property held.offset)
    (hitems : ∀ item ∈ items, property item.offset) :
    ∀ item ∈ uncommenter.run state items, property item.offset := by
  obtain ⟨hput, hlater⟩ := uncommenter_offsets property hheld hitems
  intro item hmem
  rcases List.mem_append.mp hmem with hmem | hmem
  · exact hput item hmem
  · exact hlater item hmem

/-! ## Lines -/

/-- Nothing, or something that ends in a newline. -/
def EndsLine (items : List Placed) : Prop :=
  ∀ item ∈ items.getLast?, item.character = newline

def lineOf (items : List Placed) : List Placed :=
  items.takeWhile (·.character ≠ newline)

theorem mem_linesFrom {line front : List Placed} {items : List Placed} :
    line ∈ linesFrom front items ↔ line = front ++ lineOf items ∨
        ∃ before item behind, items = before ++ item :: behind ∧
          item.character = newline ∧ line = lineOf behind := by
  induction items generalizing front with
  | nil => simp [linesFrom, lineOf]
  | cons item items ih =>
    rw [linesFrom]
    by_cases hend : item.character = newline
    · rw [if_pos hend, List.mem_cons, ih]
      have hfront : lineOf (item :: items) = [] := by simp [lineOf, hend]
      rw [hfront, List.append_nil, List.nil_append]
      constructor
      · rintro (hfirst | hnext | ⟨before, other, behind, rfl, hother, hline⟩)
        · exact Or.inl hfirst
        · exact Or.inr ⟨[], item, items, rfl, hend, hnext⟩
        · exact Or.inr ⟨item :: before, other, behind, rfl, hother, hline⟩
      · rintro (hfirst | ⟨before, other, behind, hitems, hother, hline⟩)
        · exact Or.inl hfirst
        · right
          cases before with
          | nil =>
            obtain ⟨rfl, rfl⟩ := List.cons.inj hitems
            exact Or.inl hline
          | cons first before =>
            obtain ⟨rfl, rfl⟩ := List.cons.inj hitems
            exact Or.inr ⟨before, other, behind, rfl, hother, hline⟩
    · rw [if_neg hend, ih]
      have hfront : lineOf (item :: items) = item :: lineOf items := by
        simp [lineOf, hend]
      rw [hfront, List.append_assoc, List.singleton_append]
      apply or_congr_right
      constructor
      · rintro ⟨before, other, behind, rfl, hother, hline⟩
        exact ⟨item :: before, other, behind, rfl, hother, hline⟩
      · rintro ⟨before, other, behind, hitems, hother, hline⟩
        cases before with
        | nil =>
          obtain ⟨rfl, rfl⟩ := List.cons.inj hitems
          exact absurd hother hend
        | cons first before =>
          obtain ⟨rfl, rfl⟩ := List.cons.inj hitems
          exact ⟨before, other, behind, rfl, hother, hline⟩

/-- A line is what stands at the front or behind a newline, up to the next
one. -/
theorem mem_lines {line items : List Placed} :
    line ∈ lines items ↔
      ∃ before behind, items = before ++ behind ∧ EndsLine before ∧
        line = lineOf behind := by
  rw [lines, mem_linesFrom, List.nil_append]
  constructor
  · rintro (hfirst | ⟨before, item, behind, rfl, hend, hline⟩)
    · exact ⟨[], items, rfl, by simp [EndsLine], hfirst⟩
    · exact ⟨before ++ [item], behind, by simp, by simp [EndsLine, hend], hline⟩
  · rintro ⟨before, behind, rfl, hend, hline⟩
    rcases List.eq_nil_or_concat before with rfl | ⟨front, item, rfl⟩
    · exact Or.inl hline
    · exact Or.inr ⟨front, item, behind, by simp, hend item (by simp), hline⟩

/-- Only blanks stand behind the last newline. -/
theorem atFront_iff {items : List Placed} :
    AtFront items ↔
      ∃ before blanks, items = before ++ blanks ∧ EndsLine before ∧
        ∀ item ∈ blanks, isBlank item.character = true := by
  constructor
  · intro h
    refine ⟨(items.reverse.dropWhile fun item => isBlank item.character).reverse,
      (items.reverse.takeWhile fun item => isBlank item.character).reverse,
      ?_, ?_, ?_⟩
    · rw [← List.reverse_append, List.takeWhile_append_dropWhile,
        List.reverse_reverse]
    · intro item hitem
      rw [List.getLast?_reverse, Option.mem_def] at hitem
      rw [AtFront, hitem] at h
      simpa using h
    · intro item hitem
      rw [List.mem_reverse] at hitem
      simpa using List.mem_takeWhile_imp hitem
  · rintro ⟨before, blanks, rfl, hend, hblanks⟩
    have hdrop : (before ++ blanks).reverse.dropWhile
        (fun item => isBlank item.character) = before.reverse := by
      rw [List.reverse_append, List.dropWhile_append_of_pos]
      · rcases List.eq_nil_or_concat before with rfl | ⟨front, item, rfl⟩
        · rfl
        · have hitem := hend item (by simp)
          simp only [List.concat_eq_append, List.reverse_append,
            List.reverse_singleton, List.singleton_append]
          apply List.dropWhile_cons_of_neg
          rw [hitem]
          decide
      · intro item hitem
        exact hblanks item (List.mem_reverse.mp hitem)
    rw [AtFront, hdrop, List.head?_reverse]
    cases hlast : before.getLast? with
    | none => rfl
    | some item => simpa using hend item hlast

theorem atFront_concat {items : List Placed} {item : Placed} :
    AtFront (items ++ [item]) ↔
      (isBlank item.character = true ∧ AtFront items) ∨
        item.character = newline := by
  by_cases hblank : isBlank item.character = true
  · have hne : item.character ≠ newline := by
      intro heq
      rw [heq] at hblank
      revert hblank
      decide
    simp [AtFront, hblank, hne]
  · simp [AtFront, hblank]

def Reading.IsQuoting (state : Reading) : Prop :=
  ∃ delimiter, state = .literal delimiter ∨ state = .escape delimiter

theorem readCode_quoting {item : Placed} (h : (readCode item).1.IsQuoting) :
    (readCode item).2 = [item] ∧ isBlank item.character = false ∧
      item.character ≠ newline := by
  obtain ⟨delimiter, h⟩ := h
  unfold readCode at h ⊢
  by_cases hslash : item.character = '/'.toUInt8
  · simp [hslash] at h
  · rw [if_neg hslash] at h ⊢
    by_cases hquote : item.character = '"'.toUInt8 ∨
        item.character = '\''.toUInt8
    · rw [if_pos hquote]
      refine ⟨rfl, ?_, ?_⟩
      · rcases hquote with heq | heq <;> rw [heq] <;> decide
      · rcases hquote with heq | heq <;> rw [heq] <;> decide
    · simp [hquote] at h

/-- Within a literal, its delimiter stands on the line. -/
theorem not_atFront_of_quoting {items : List Placed}
    (h : (uncommenter.after .code items).IsQuoting) :
    ¬AtFront (uncommenter.output .code items) := by
  revert h
  apply uncommenter.after_output_induction
    (motive := fun state put => state.IsQuoting → ¬AtFront put)
  · rintro ⟨delimiter, h | h⟩ <;> cases h
  · intro item _ state put hbefore hquoting hfront
    have hcode : (readCode item).1.IsQuoting →
        ∀ front, ¬AtFront (front ++ (readCode item).2) := by
      intro hread front hfront
      obtain ⟨hput, hblank, hne⟩ := readCode_quoting hread
      rw [hput, atFront_concat] at hfront
      rcases hfront with ⟨htrue, _⟩ | hend
      · rw [hblank] at htrue
        cases htrue
      · exact hne hend
    have hwithin : state.IsQuoting → item.character ≠ newline →
        ¬AtFront (put ++ [item]) := by
      intro hstate hne hfront
      rw [atFront_concat] at hfront
      rcases hfront with ⟨_, hold⟩ | hend
      · exact hbefore hstate hold
      · exact hne hend
    cases state with
    | code => exact hcode hquoting put hfront
    | slash offset =>
      by_cases hline : item.character = '/'.toUInt8
      · obtain ⟨delimiter, h⟩ := hquoting
        simp [uncommenter, hline] at h
      · by_cases hblock : item.character = '*'.toUInt8
        · obtain ⟨delimiter, h⟩ := hquoting
          simp only [uncommenter, if_neg hline] at h
          simp [hblock] at h
        · simp only [uncommenter, if_neg hline, if_neg hblock] at hquoting hfront
          apply hcode hquoting (put ++ [⟨offset, '/'.toUInt8⟩])
          simpa using hfront
    | lineComment =>
      obtain ⟨delimiter, h⟩ := hquoting
      by_cases hend : item.character = newline <;>
        simp [uncommenter, hend] at h
    | blockComment =>
      obtain ⟨delimiter, h⟩ := hquoting
      by_cases hstar : item.character = '*'.toUInt8 <;>
        simp [uncommenter, hstar] at h
    | star =>
      obtain ⟨delimiter, h⟩ := hquoting
      by_cases hslash : item.character = '/'.toUInt8
      · simp [uncommenter, hslash] at h
      · simp only [uncommenter, if_neg hslash] at h
        by_cases hstar : item.character = '*'.toUInt8 <;>
          simp [hstar] at h
    | literal quote =>
      have hne : item.character ≠ newline := by
        intro heq
        obtain ⟨delimiter, h⟩ := hquoting
        simp [uncommenter, heq] at h
      exact hwithin ⟨quote, Or.inl rfl⟩ hne hfront
    | escape quote =>
      have hne : item.character ≠ newline := by
        intro heq
        obtain ⟨delimiter, h⟩ := hquoting
        simp [uncommenter, heq] at h
      exact hwithin ⟨quote, Or.inr rfl⟩ hne hfront

theorem lineDirective_blanks {blanks rest : List Placed} {hash : Placed}
    (hblanks : ∀ item ∈ blanks, isBlank item.character = true)
    (hhash : hash.character = '#'.toUInt8) :
    lineDirective (blanks ++ hash :: rest) =
      (defineText ((characters rest).dropWhile isBlank)).map
        fun (name, replacement) => ⟨hash.offset, name, replacement⟩ := by
  have hne : ¬isBlank hash.character = true := by
    rw [hhash]
    decide
  have hdrop : (blanks ++ hash :: rest).dropWhile
      (fun item => isBlank item.character) = hash :: rest := by
    rw [List.dropWhile_append_of_pos hblanks]
    simp [hne]
  rw [lineDirective, hdrop]
  simp only [if_pos hhash]

theorem exists_of_lineDirective {line : List Placed} {directive : Directive}
    (h : lineDirective line = some directive) :
    ∃ blanks hash rest, line = blanks ++ hash :: rest ∧
      (∀ item ∈ blanks, isBlank item.character = true) ∧
      hash.character = '#'.toUInt8 ∧ hash.offset = directive.offset := by
  rw [lineDirective] at h
  cases hdrop : line.dropWhile (fun item => isBlank item.character) with
  | nil => simp [hdrop] at h
  | cons hash rest =>
    simp only [hdrop] at h
    by_cases hhash : hash.character = '#'.toUInt8
    · rw [if_pos hhash, Option.map_eq_some_iff] at h
      obtain ⟨⟨name, replacement⟩, _, rfl⟩ := h
      refine ⟨line.takeWhile fun item => isBlank item.character, hash, rest,
        ?_, ?_, hhash, rfl⟩
      · rw [← hdrop, List.takeWhile_append_dropWhile]
      · intro item hmem
        simpa using List.mem_takeWhile_imp hmem
    · simp [hhash] at h

/-- A line that has this `#` behind blanks goes on as the text does. -/
theorem lineOf_blanks {blanks rest : List Placed} {hash : Placed}
    (hblanks : ∀ item ∈ blanks, isBlank item.character = true)
    (hhash : hash.character = '#'.toUInt8) :
    lineOf (blanks ++ hash :: rest) = blanks ++ hash :: lineOf rest := by
  have hne : hash.character ≠ newline := by
    rw [hhash]
    decide
  rw [lineOf, List.takeWhile_append_of_pos]
  · simp [lineOf, hne]
  · intro item hmem
    have hblank := hblanks item hmem
    have hother : item.character ≠ newline := by
      intro heq
      rw [heq] at hblank
      revert hblank
      decide
    simpa using hother

theorem eq_of_lineOf_eq {blanks rest items : List Placed} {hash : Placed}
    (h : lineOf items = blanks ++ hash :: rest) :
    ∃ behind, items = blanks ++ hash :: behind := by
  refine ⟨rest ++ items.dropWhile (·.character ≠ newline), ?_⟩
  conv_lhs => rw [← List.takeWhile_append_dropWhile
    (p := fun item : Placed => decide (item.character ≠ newline)) (l := items)]
  rw [← lineOf, h]
  simp

/-! ## The directive at a place -/

/-- What is visible of a text around a `#`. -/
theorem visible_hash {before : List UInt8}
    (hplain : joiner.after .plain (placed 0 before) = .plain)
    (rest : List UInt8) :
    visible (before ++ '#'.toUInt8 :: rest) =
      uncommenter.output .code (joiner.output .plain (placed 0 before)) ++
        uncommenter.run
          (uncommenter.after .code (joiner.output .plain (placed 0 before)))
          (⟨before.length, '#'.toUInt8⟩ ::
            joiner.run .plain (placed (before.length + 1) rest)) := by
  have hstep : joiner.step .plain ⟨before.length, '#'.toUInt8⟩ =
      (.plain, [⟨before.length, '#'.toUInt8⟩]) :=
    joiner_step_of_plain (show '#'.toUInt8 ≠ '\\'.toUInt8 by decide)
  rw [visible, placed_append, placed, Nat.zero_add, joiner.run_append, hplain,
    joiner.run_cons, hstep, uncommenter.run_append]
  rfl

theorem offset_lt_of_mem_front {before : List UInt8} {item : Placed}
    (h : item ∈ uncommenter.output .code
      (joiner.output .plain (placed 0 before))) :
    item.offset < before.length := by
  have hjoined : ∀ other ∈ joiner.output .plain (placed 0 before),
      other.offset < before.length := by
    apply (joiner_offsets (· < before.length) _).1
    intro other hmem
    simpa using (offset_of_mem_placed hmem).2
  exact (uncommenter_offsets (· < before.length) (by simp [Reading.held])
    hjoined).1 item h

theorem lt_offset_of_mem_rest {offset : Nat} {rest : List UInt8}
    {state : Reading} (hheld : state.held = []) {item : Placed}
    (h : item ∈ uncommenter.run state
      (joiner.run .plain (placed (offset + 1) rest))) :
    offset < item.offset := by
  have hjoined : ∀ other ∈ joiner.run .plain (placed (offset + 1) rest),
      offset < other.offset :=
    joiner_run_offsets (offset < ·) fun other hmem =>
      (offset_of_mem_placed hmem).1
  exact uncommenter_run_offsets (offset < ·) (by simp [hheld]) hjoined item h

/-- The only place of a `#` that stands on the way from one part of a text to the
other. -/
theorem eq_of_append_hash {front behind before after : List Placed}
    {hash : Placed} (hfront : ∀ item ∈ front, item ≠ hash)
    (hbehind : ∀ item ∈ behind, item ≠ hash)
    (h : front ++ hash :: behind = before ++ hash :: after) :
    front = before ∧ behind = after := by
  have hsplit := (List.append_cons_inj_of_notMem
    (fun hmem => hfront hash hmem rfl) (fun hmem => hbehind hash hmem rfl)).mp h
  exact ⟨hsplit.1, hsplit.2.2⟩

/-- A literal passes a `#` on. -/
theorem run_hash_of_quoting {state : Reading} (h : state.IsQuoting)
    (offset : Nat) (items : List Placed) :
    ∃ later : Reading, later.held = [] ∧
      uncommenter.run state (⟨offset, '#'.toUInt8⟩ :: items) =
        ⟨offset, '#'.toUInt8⟩ :: uncommenter.run later items := by
  have hne : '#'.toUInt8 ≠ newline := by decide
  have hescape : '#'.toUInt8 ≠ '\\'.toUInt8 := by decide
  obtain ⟨delimiter, rfl | rfl⟩ := h
  · refine ⟨_, ?_, uncommenter.run_cons _ _ _⟩
    by_cases hend : '#'.toUInt8 = delimiter
    · simp [uncommenter, ← hend, Reading.held]
    · simp only [uncommenter, hne, hend, hescape, or_self, if_false]
      rfl
  · refine ⟨_, ?_, uncommenter.run_cons _ _ _⟩
    simp only [uncommenter, hne, if_false]
    rfl

/-- Where a line has this `#` behind blanks, it opens a directive, and the line
goes on with what is read from there. -/
theorem opens_of_line {before rest : List UInt8}
    (hplain : joiner.after .plain (placed 0 before) = .plain)
    {front blanks behind : List Placed} (hend : EndsLine front)
    (hblanks : ∀ item ∈ blanks, isBlank item.character = true)
    (hvisible : visible (before ++ '#'.toUInt8 :: rest) =
      (front ++ blanks) ++ ⟨before.length, '#'.toUInt8⟩ :: behind) :
    OpensDirective before ∧ behind = uncommenter.run .code
        (joiner.run .plain (placed (before.length + 1) rest)) := by
  have hatFront : AtFront (front ++ blanks) :=
    atFront_iff.mpr ⟨front, blanks, rfl, hend, hblanks⟩
  rw [visible_hash hplain] at hvisible
  set joined := joiner.output .plain (placed 0 before) with hjoined
  set later := joiner.run .plain (placed (before.length + 1) rest) with hlater
  have hfront : ∀ item ∈ uncommenter.output .code joined,
      item ≠ ⟨before.length, '#'.toUInt8⟩ := by
    rintro item hmem rfl
    exact lt_irrefl _ (offset_lt_of_mem_front hmem)
  have hrest : ∀ state : Reading, state.held = [] →
      ∀ item ∈ uncommenter.run state later,
        item ≠ ⟨before.length, '#'.toUInt8⟩ := by
    rintro state hheld item hmem rfl
    exact lt_irrefl _ (lt_offset_of_mem_rest hheld hmem)
  -- a comment swallows the `#`
  have hcomment : ∀ state : Reading, state.held = [] →
      uncommenter.run (uncommenter.after .code joined)
        (⟨before.length, '#'.toUInt8⟩ :: later) =
          uncommenter.run state later → False := by
    intro state hheld hrun
    rw [hrun] at hvisible
    have hmem : (⟨before.length, '#'.toUInt8⟩ : Placed) ∈
        uncommenter.output .code joined ++ uncommenter.run state later := by
      rw [hvisible]
      simp
    rcases List.mem_append.mp hmem with hmem | hmem
    · exact hfront _ hmem rfl
    · exact hrest state hheld _ hmem rfl
  -- a literal keeps it, but its delimiter stands in front
  have hliteral : (uncommenter.after .code joined).IsQuoting → False := by
    intro hquoting
    obtain ⟨state, hheld, hrun⟩ := run_hash_of_quoting hquoting before.length
      later
    rw [hrun] at hvisible
    have hsame := (eq_of_append_hash hfront (hrest state hheld) hvisible).1
    exact not_atFront_of_quoting hquoting (hsame ▸ hatFront)
  cases hstate : uncommenter.after .code joined with
  | code =>
    have hrun : uncommenter.run .code
        (⟨before.length, '#'.toUInt8⟩ :: later) =
          ⟨before.length, '#'.toUInt8⟩ :: uncommenter.run .code later :=
      uncommenter.run_cons _ _ _
    rw [hstate, hrun] at hvisible
    obtain ⟨hsame, hbehind⟩ :=
      eq_of_append_hash hfront (hrest .code rfl) hvisible
    exact ⟨⟨hstate, hsame ▸ hatFront⟩, hbehind.symm⟩
  | slash offset =>
    exfalso
    have hrun : uncommenter.run (.slash offset)
        (⟨before.length, '#'.toUInt8⟩ :: later) =
          ⟨offset, '/'.toUInt8⟩ :: ⟨before.length, '#'.toUInt8⟩ ::
            uncommenter.run .code later :=
      uncommenter.run_cons _ _ _
    have hslash : ∀ item ∈ uncommenter.output .code joined ++
        [⟨offset, '/'.toUInt8⟩], item ≠ ⟨before.length, '#'.toUInt8⟩ := by
      intro item hmem
      rcases List.mem_append.mp hmem with hmem | hmem
      · exact hfront item hmem
      · rw [List.mem_singleton.mp hmem]
        intro heq
        have hcharacter : '/'.toUInt8 = '#'.toUInt8 :=
          congrArg Placed.character heq
        revert hcharacter
        decide
    rw [hstate, hrun, ← List.singleton_append, ← List.append_assoc]
      at hvisible
    have hsame :=
      (eq_of_append_hash hslash (hrest .code rfl) hvisible).1
    rw [← hsame, atFront_concat] at hatFront
    rcases hatFront with ⟨hblank, _⟩ | hnewline
    · revert hblank
      simp only
      decide
    · revert hnewline
      simp only
      decide
  | lineComment =>
    exact (hcomment .lineComment rfl (by rw [hstate]; rfl)).elim
  | blockComment =>
    exact (hcomment .blockComment rfl (by rw [hstate]; rfl)).elim
  | star => exact (hcomment .blockComment rfl (by rw [hstate]; rfl)).elim
  | literal delimiter => exact (hliteral ⟨delimiter, Or.inl hstate⟩).elim
  | escape delimiter => exact (hliteral ⟨delimiter, Or.inr hstate⟩).elim

/-- The directive that a `#` makes. -/
def directiveAt (offset : Nat) (rest : List UInt8) : Option Directive :=
  (defineText ((visibleLine (offset + 1) rest).dropWhile isBlank)).map
    fun (name, replacement) => ⟨offset, name, replacement⟩

/-- A `#` makes a directive exactly where the text in front of it opens one. -/
theorem mem_directives_at {before : List UInt8}
    (hplain : joiner.after .plain (placed 0 before) = .plain)
    (rest : List UInt8) (directive : Directive) :
    (directive ∈ directives (before ++ '#'.toUInt8 :: rest) ∧
        directive.offset = before.length) ↔
      OpensDirective before ∧
        directiveAt before.length rest = some directive := by
  simp only [directives, List.mem_filterMap]
  constructor
  · rintro ⟨⟨line, hline, hdirective⟩, hoffset⟩
    obtain ⟨front, items, hvisible, hend, rfl⟩ := mem_lines.mp hline
    obtain ⟨blanks, ⟨offset, character⟩, after, heq, hblanks, hhash, hplace⟩ :=
      exists_of_lineDirective hdirective
    obtain ⟨behind, rfl⟩ := eq_of_lineOf_eq heq
    obtain rfl : offset = before.length := hplace.trans hoffset
    obtain rfl : character = '#'.toUInt8 := hhash
    rw [← List.append_assoc] at hvisible
    obtain ⟨hopens, hbehind⟩ := opens_of_line hplain hend hblanks hvisible
    rw [lineOf_blanks hblanks rfl, lineDirective_blanks hblanks rfl, hbehind]
      at hdirective
    exact ⟨hopens, hdirective⟩
  · rintro ⟨⟨hcode, hfront⟩, hdirective⟩
    obtain ⟨front, blanks, hsplit, hend, hblanks⟩ := atFront_iff.mp hfront
    set later := uncommenter.run .code
      (joiner.run .plain (placed (before.length + 1) rest)) with hlater
    have hrun : uncommenter.run .code (⟨before.length, '#'.toUInt8⟩ ::
        joiner.run .plain (placed (before.length + 1) rest)) =
          ⟨before.length, '#'.toUInt8⟩ :: later :=
      uncommenter.run_cons _ _ _
    have hline : lineDirective
        (blanks ++ ⟨before.length, '#'.toUInt8⟩ :: lineOf later) =
          directiveAt before.length rest :=
      lineDirective_blanks hblanks rfl
    refine ⟨⟨blanks ++ ⟨before.length, '#'.toUInt8⟩ :: lineOf later, ?_,
      hline.trans hdirective⟩, ?_⟩
    · refine mem_lines.mpr ⟨front,
        blanks ++ ⟨before.length, '#'.toUInt8⟩ :: later, ?_, hend,
        (lineOf_blanks hblanks rfl).symm⟩
      rw [visible_hash hplain, hcode, hsplit, hrun, List.append_assoc]
    · obtain ⟨pair, _, rfl⟩ := Option.map_eq_some_iff.mp hdirective
      rfl

/-! ## What stands behind the `#` -/

/-- Outside comments these characters stay as they are. -/
def IsPlain (character : UInt8) : Prop :=
  character ≠ '\\'.toUInt8 ∧ character ≠ '/'.toUInt8 ∧
    character ≠ '"'.toUInt8 ∧ character ≠ '\''.toUInt8 ∧ character ≠ newline

theorem joiner_run_of_not_mem {text : List UInt8} (h : '\\'.toUInt8 ∉ text)
    (offset : Nat) (rest : List Placed) :
    joiner.run .plain (placed offset text ++ rest) =
      placed offset text ++ joiner.run .plain rest := by
  have hstep : ∀ item ∈ placed offset text,
      joiner.step .plain item = (.plain, [item]) := by
    intro item hmem
    apply joiner_step_of_plain
    intro heq
    exact h (heq ▸ mem_placed_character hmem)
  have hpasses := joiner.run_append_of_passes (fun item => [item]) hstep rest
  rwa [List.flatMap_singleton'] at hpasses

theorem visibleLine_append {text : List UInt8}
    (h : ∀ character ∈ text, IsPlain character) (offset : Nat)
    (rest : List UInt8) :
    visibleLine offset (text ++ rest) =
      text ++ visibleLine (offset + text.length) rest := by
  have hbackslash : '\\'.toUInt8 ∉ text := fun hmem => (h _ hmem).1 rfl
  have hstep : ∀ item ∈ placed offset text,
      uncommenter.step .code item = (.code, [item]) := by
    intro item hmem
    obtain ⟨_, hslash, hdouble, hsingle, _⟩ := h _ (mem_placed_character hmem)
    simp [uncommenter, readCode, hslash, hdouble, hsingle]
  have hpasses := uncommenter.run_append_of_passes (fun item => [item]) hstep
    (joiner.run .plain (placed (offset + text.length) rest))
  rw [List.flatMap_singleton'] at hpasses
  have hkeeps : ∀ item ∈ placed offset text,
      decide (item.character ≠ newline) = true := by
    intro item hmem
    simpa using (h _ (mem_placed_character hmem)).2.2.2.2
  rw [visibleLine, placed_append, joiner_run_of_not_mem hbackslash, hpasses,
    List.takeWhile_append_of_pos hkeeps]
  simp only [characters, List.map_append]
  rw [← characters, characters_placed]
  rfl

theorem isPlain_of_isIdentifier {character : UInt8}
    (h : isIdentifier character = true) : IsPlain character := by
  refine ⟨?_, ?_, ?_, ?_, ?_⟩ <;>
  · rintro rfl
    revert h
    decide

theorem isBlank_of_isIdentifier {character : UInt8}
    (h : isIdentifier character = true) : isBlank character = false := by
  rw [Bool.eq_false_iff]
  intro hblank
  simp only [isBlank, Bool.or_eq_true, decide_eq_true_eq] at hblank
  rcases hblank with (((rfl | rfl) | rfl) | rfl) | rfl <;> revert h <;> decide

/-- A name that a `#define` may have. -/
structure IsMacroName (name : List UInt8) : Prop where
  nonempty : name ≠ []
  characters : ∀ character ∈ name, isIdentifier character = true
  front : name.head?.all (!isDigit ·) = true

/-- `#define`, one space and a name. -/
theorem defineText_name {name : List UInt8} (hname : IsMacroName name)
    {rest : List UInt8} (hrest : ∀ character, rest.head? = some character →
      isIdentifier character = false) :
    defineText (defineKeyword ++ (' '.toUInt8 :: (name ++ rest))) =
      some (name, trimmed rest) := by
  have hstarts : defineKeyword.isPrefixOf
      (defineKeyword ++ (' '.toUInt8 :: (name ++ rest))) = true := by
    simp
  have hblank : isBlank ' '.toUInt8 = true := by decide
  have hfront : (name ++ rest).dropWhile isBlank = name ++ rest := by
    cases name with
    | nil => exact absurd rfl hname.nonempty
    | cons first name =>
      have hfirst :=
        isBlank_of_isIdentifier (hname.characters first (by simp))
      simp [hfirst]
  have htake : (name ++ rest).takeWhile isIdentifier = name := by
    have hstop : rest.takeWhile isIdentifier = [] := by
      cases rest with
      | nil => rfl
      | cons character rest => simp [hrest character rfl]
    rw [List.takeWhile_append_of_pos hname.characters, hstop, List.append_nil]
  rw [defineText, if_pos hstarts, List.drop_left]
  simp only [List.dropWhile_cons_of_pos hblank, hfront, htake, List.drop_left,
    List.head?_cons, Option.any_some, hblank, true_and]
  rw [if_pos ⟨hname.nonempty, hname.front⟩]

/-- What the preprocessor reads at `#define`, one space and a name. -/
theorem directiveAt_define {name : List UInt8} (hname : IsMacroName name)
    (offset : Nat) {rest : List UInt8}
    (hrest : ∀ character,
      (visibleLine (offset + 8 + name.length) rest).head? = some character →
        isIdentifier character = false) :
    directiveAt offset
        (defineKeyword ++ (' '.toUInt8 :: (name ++ rest))) =
      some ⟨offset, name,
        trimmed (visibleLine (offset + 8 + name.length) rest)⟩ := by
  have hplain : ∀ character ∈ defineKeyword ++ (' '.toUInt8 :: name),
      IsPlain character := by
    intro character hmem
    rcases List.mem_append.mp hmem with hmem | hmem
    · have hkeyword : ∀ character ∈ defineKeyword,
          isIdentifier character = true := by
        decide +kernel
      exact isPlain_of_isIdentifier (hkeyword character hmem)
    · rcases List.mem_cons.mp hmem with rfl | hmem
      · refine ⟨?_, ?_, ?_, ?_, ?_⟩ <;> decide
      · exact isPlain_of_isIdentifier (hname.characters character hmem)
  have hline := visibleLine_append hplain (offset + 1) rest
  have hlength : offset + 1 + (defineKeyword ++ (' '.toUInt8 :: name)).length =
        offset + 8 + name.length := by
    have hkeyword : defineKeyword.length = 6 := by decide
    rw [List.length_append, List.length_cons, hkeyword]
    omega
  rw [hlength] at hline
  have hsame : defineKeyword ++ (' '.toUInt8 :: (name ++ rest)) =
      (defineKeyword ++ (' '.toUInt8 :: name)) ++ rest := by
    simp
  have hkeyword : ∀ text, (defineKeyword ++ text).dropWhile isBlank =
      defineKeyword ++ text := by
    intro text
    rfl
  rw [directiveAt, hsame, hline, List.append_assoc, hkeyword, List.cons_append,
    defineText_name hname hrest]
  rfl

end Bomwerk.Support.CDirectives
