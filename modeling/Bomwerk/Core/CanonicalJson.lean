import Bomwerk.Core.Json
import Mathlib.Algebra.Group.Int.Defs
import Mathlib.Data.List.TakeWhile

/-!
# Canonical JSON

The texts the writers emit: no blanks, members in key order, integers of 64
bits.  `Derives` is their grammar over characters, and `read` the reader that
takes every text of it back to its value.  Booleans, `null` and reals are left
out, as no modelled text holds one.
-/

namespace Bomwerk.Core.CanonicalJson

/-- The character a two-character escape stands for. -/
def shortEscape : Char → Option Char
  | '"' => some '"'
  | '\\' => some '\\'
  | '/' => some '/'
  | 'b' => some '\x08'
  | 'f' => some '\x0c'
  | 'n' => some '\n'
  | 'r' => some '\r'
  | 't' => some '\t'
  | _ => none

def hexDigitValue (c : Char) : Option Nat :=
  if '0' ≤ c ∧ c ≤ '9' then some (c.toNat - '0'.toNat)
  else if 'a' ≤ c ∧ c ≤ 'f' then some (c.toNat - 'a'.toNat + 10)
  else if 'A' ≤ c ∧ c ≤ 'F' then some (c.toNat - 'A'.toNat + 10)
  else none

/-- The character four hexadecimal digits stand for; a surrogate stands for
none. -/
def unicodeEscape (a b c d : Char) : Option Char :=
  match hexDigitValue a, hexDigitValue b, hexDigitValue c, hexDigitValue d with
  | some a, some b, some c, some d =>
    let value := ((a * 16 + b) * 16 + c) * 16 + d
    if value.isValidChar then some (Char.ofNat value) else none
  | _, _, _, _ => none

/-- The text between the quotes, and the characters it stands for. -/
inductive StringBody : List Char → List Char → Prop
  | nil : StringBody [] []
  | plain {c : Char} {text chars : List Char} :
      0x20 ≤ c.toNat → c ≠ '"' → c ≠ '\\' → StringBody text chars →
        StringBody (c :: text) (c :: chars)
  | short {escape c : Char} {text chars : List Char} :
      shortEscape escape = some c → StringBody text chars →
        StringBody ('\\' :: escape :: text) (c :: chars)
  | unicode {a b c d value : Char} {text chars : List Char} :
      unicodeEscape a b c d = some value → StringBody text chars →
        StringBody ('\\' :: 'u' :: a :: b :: c :: d :: text) (value :: chars)

theorem StringBody.append {text text' chars chars' : List Char}
    (hleft : StringBody text chars) (hright : StringBody text' chars') :
    StringBody (text ++ text') (chars ++ chars') := by
  induction hleft with
  | nil => exact hright
  | plain hlow hquote hslash _ ih => exact .plain hlow hquote hslash ih
  | short hescape _ ih => exact .short hescape ih
  | unicode hvalue _ ih => exact .unicode hvalue ih

def isPlain (c : Char) : Bool :=
  decide (0x20 ≤ c.toNat) && c != '"' && c != '\\'

theorem StringBody.of_plain {text : List Char}
    (hplain : text.all isPlain = true) : StringBody text text := by
  induction text with
  | nil => exact .nil
  | cons c text ih =>
    simp only [List.all_cons, isPlain, Bool.and_eq_true, decide_eq_true_eq,
      bne_iff_ne] at hplain
    obtain ⟨⟨⟨hlow, hquote⟩, hslash⟩, htext⟩ := hplain
    exact .plain hlow hquote hslash (ih htext)

/-- The characters up to the closing quote, and what is behind it. -/
def readString : List Char → Option (List Char × List Char)
  | '\\' :: 'u' :: a :: b :: c :: d :: text =>
    match unicodeEscape a b c d with
    | some value =>
      (readString text).map fun read => (value :: read.1, read.2)
    | none => none
  | '\\' :: escape :: text =>
    match shortEscape escape with
    | some c => (readString text).map fun read => (c :: read.1, read.2)
    | none => none
  | c :: text =>
    if c = '"' then some ([], text)
    else if c = '\\' ∨ c.toNat < 0x20 then none
    else (readString text).map fun read => (c :: read.1, read.2)
  | [] => none

theorem readString_of_body {text chars : List Char}
    (hbody : StringBody text chars) (rest : List Char) :
    readString (text ++ '"' :: rest) = some (chars, rest) := by
  induction hbody with
  | nil =>
    rw [List.nil_append, readString]
    · simp
    all_goals simp
  | plain hlow hquote hslash _ ih =>
    rw [List.cons_append, readString]
    · rw [if_neg hquote, if_neg (by simp [hslash]; omega), ih]
      rfl
    · intro a b c d more h
      exact absurd h hslash
    · intro escape more h
      exact absurd h hslash
  | @short escape c text chars hescape _ ih =>
    rw [List.cons_append, List.cons_append, readString, hescape]
    · simp [ih]
    · intro a b d e more h _
      rw [h] at hescape
      simp [shortEscape] at hescape
  | unicode hvalue _ ih =>
    simp only [List.cons_append]
    rw [readString, hvalue]
    simp [ih]

/-! ## Integers -/

/-- The numbers the library keeps as signed integers. -/
def FitsInt64 (value : Int) : Prop := -2 ^ 63 ≤ value ∧ value < 2 ^ 63

instance (value : Int) : Decidable (FitsInt64 value) :=
  inferInstanceAs (Decidable (_ ∧ _))

def integerText (value : Int) : List Char := (toString value).toList

/-- What is left does not go on with a digit. -/
def NoDigit (rest : List Char) : Prop := ∀ c ∈ rest.head?, c.isDigit = false

theorem integerText_eq (value : Int) :
    integerText value = if value < 0 then '-' :: Nat.toDigits 10 value.natAbs
      else Nat.toDigits 10 value.natAbs := by
  cases value with
  | ofNat n =>
    rw [if_neg (by simp)]
    change (Nat.repr n).toList = _
    rw [Nat.toList_repr]
    rfl
  | negSucc n =>
    rw [if_pos (Int.negSucc_lt_zero n)]
    change ("-" ++ Nat.repr (n + 1)).toList = _
    rw [String.toList_append, Nat.toList_repr]
    rfl

theorem isDigit_of_mem_toDigits {n : Nat} {c : Char}
    (hc : c ∈ Nat.toDigits 10 n) : c.isDigit = true :=
  Nat.isDigit_of_mem_toDigits (by decide) (by decide) hc

theorem numeric_of_mem_integerText {value : Int} {c : Char}
    (hc : c ∈ integerText value) : c = '-' ∨ c.isDigit = true := by
  rw [integerText_eq] at hc
  split_ifs at hc
  · exact (List.mem_cons.mp hc).imp_right isDigit_of_mem_toDigits
  · exact Or.inr (isDigit_of_mem_toDigits hc)

theorem ne_of_numeric {c d : Char} (hc : c = '-' ∨ c.isDigit = true)
    (hd : d ≠ '-') (hdigit : d.isDigit = false) : c ≠ d := by
  rintro rfl
  rcases hc with rfl | hc
  · exact hd rfl
  · rw [hc] at hdigit
    exact absurd hdigit (by decide)

theorem integerText_eq_cons (value : Int) :
    ∃ c more, integerText value = c :: more ∧ (c = '-' ∨ c.isDigit = true) := by
  cases htext : integerText value with
  | nil =>
    rw [integerText_eq] at htext
    split_ifs at htext
    exact absurd htext Nat.toDigits_ne_nil
  | cons c more =>
    exact ⟨c, more, rfl,
      numeric_of_mem_integerText (htext ▸ List.mem_cons_self)⟩

/-- A leading `-` set apart from the digits. -/
def splitSign : List Char → Bool × List Char
  | '-' :: text => (true, text)
  | text => (false, text)

def readInteger (text : List Char) : Option (Json × List Char) :=
  let (negative, unsigned) := splitSign text
  let magnitude : Int := Nat.ofDigitChars 10 (unsigned.takeWhile Char.isDigit) 0
  let value := if negative then -magnitude else magnitude
  let rest := unsigned.dropWhile Char.isDigit
  if text = integerText value ++ rest ∧ FitsInt64 value then
    some (.integer value, rest)
  else none

theorem takeWhile_dropWhile_digits (n : Nat) {rest : List Char}
    (hrest : NoDigit rest) :
    (Nat.toDigits 10 n ++ rest).takeWhile Char.isDigit = Nat.toDigits 10 n ∧
      (Nat.toDigits 10 n ++ rest).dropWhile Char.isDigit = rest := by
  have hstop : rest.takeWhile Char.isDigit = [] ∧
      rest.dropWhile Char.isDigit = rest := by
    cases rest with
    | nil => exact ⟨rfl, rfl⟩
    | cons c rest =>
      have hc := hrest c rfl
      simp [hc]
  rw [List.takeWhile_append_of_pos fun c hc => isDigit_of_mem_toDigits hc,
    List.dropWhile_append_of_pos fun c hc => isDigit_of_mem_toDigits hc,
    hstop.1, hstop.2, List.append_nil]
  exact ⟨rfl, rfl⟩

theorem splitSign_integerText (value : Int) (rest : List Char) :
    splitSign (integerText value ++ rest) =
      (decide (value < 0), Nat.toDigits 10 value.natAbs ++ rest) := by
  rw [integerText_eq]
  by_cases hneg : value < 0
  · rw [if_pos hneg, decide_eq_true hneg]
    rfl
  · rw [if_neg hneg, decide_eq_false hneg]
    cases hdigits : Nat.toDigits 10 value.natAbs with
    | nil => exact absurd hdigits Nat.toDigits_ne_nil
    | cons c digits =>
      have hc : c.isDigit = true :=
        isDigit_of_mem_toDigits (by rw [hdigits]; exact List.mem_cons_self)
      rw [List.cons_append, splitSign]
      intro more h
      rw [(List.cons.inj h).1] at hc
      exact absurd hc (by decide)

theorem readInteger_integerText {value : Int} (hfits : FitsInt64 value)
    {rest : List Char} (hrest : NoDigit rest) :
    readInteger (integerText value ++ rest) = some (.integer value, rest) := by
  obtain ⟨htake, hdrop⟩ := takeWhile_dropWhile_digits value.natAbs hrest
  have hmagnitude : (if decide (value < 0) = true then
      -((value.natAbs : Nat) : Int) else (value.natAbs : Nat)) = value := by
    by_cases hneg : value < 0
    · simp only [hneg, decide_true, if_true]
      omega
    · simp only [hneg, decide_false, Bool.false_eq_true, if_false]
      omega
  simp only [readInteger, splitSign_integerText, htake, hdrop,
    Nat.ofDigitChars_ten_toDigits, hmagnitude]
  rw [if_pos ⟨trivial, hfits⟩]

/-- The keys of an object stand in order, each once. -/
def KeysOrdered (members : List (String × Json)) : Prop :=
  (members.map Prod.fst).Pairwise (· < ·)

instance (members : List (String × Json)) : Decidable (KeysOrdered members) :=
  inferInstanceAs (Decidable (List.Pairwise _ _))

/-- What a piece of text can stand for. -/
inductive Part
  | value (value : Json)
  | items (items : List Json)
  | members (members : List (String × Json))

/-- The grammar. -/
inductive Derives : Part → List Char → Prop
  | string {text chars : List Char} :
      StringBody text chars →
        Derives (.value (.string (String.ofList chars))) ('"' :: (text ++ ['"']))
  | integer {value : Int} :
      FitsInt64 value → Derives (.value (.integer value)) (integerText value)
  | emptyArray : Derives (.value (.array [])) ['[', ']']
  | array {items : List Json} {text : List Char} :
      Derives (.items items) text →
        Derives (.value (.array items)) ('[' :: (text ++ [']']))
  | emptyObject : Derives (.value (.object [])) ['{', '}']
  | object {members : List (String × Json)} {text : List Char} :
      KeysOrdered members → Derives (.members members) text →
        Derives (.value (.object members)) ('{' :: (text ++ ['}']))
  | lastItem {value : Json} {text : List Char} :
      Derives (.value value) text → Derives (.items [value]) text
  | item {value : Json} {items : List Json} {text more : List Char} :
      Derives (.value value) text → Derives (.items items) more →
        Derives (.items (value :: items)) (text ++ ',' :: more)
  | lastMember {key text : List Char} {keyText : List Char} {value : Json} :
      StringBody keyText key → Derives (.value value) text →
        Derives (.members [(String.ofList key, value)])
          ('"' :: (keyText ++ '"' :: ':' :: text))
  | member {key text more : List Char} {keyText : List Char} {value : Json}
      {members : List (String × Json)} :
      StringBody keyText key → Derives (.value value) text →
        Derives (.members members) more →
          Derives (.members ((String.ofList key, value) :: members))
            ('"' :: (keyText ++ '"' :: ':' :: (text ++ ',' :: more)))

theorem newline_not_mem_body {text chars : List Char}
    (hbody : StringBody text chars) : '\n' ∉ text := by
  induction hbody with
  | nil => simp
  | plain hlow _ _ _ ih =>
    rw [List.mem_cons, not_or]
    refine ⟨?_, ih⟩
    rintro rfl
    exact absurd hlow (by decide)
  | @short escape c text chars hescape _ ih =>
    simp only [List.mem_cons, not_or]
    refine ⟨by decide, ?_, ih⟩
    rintro rfl
    simp [shortEscape] at hescape
  | @unicode a b c d value text chars hvalue _ ih =>
    have hnewline : hexDigitValue '\n' = none := by decide
    simp only [List.mem_cons, not_or]
    refine ⟨by decide, by decide, ?_, ?_, ?_, ?_, ih⟩
    all_goals
      rintro rfl
      simp [unicodeEscape, hnewline] at hvalue

/-- A canonical text is one line. -/
theorem newline_not_mem_of_derives {part : Part} {text : List Char}
    (hderives : Derives part text) : '\n' ∉ text := by
  induction hderives with
  | string hbody => simp [newline_not_mem_body hbody]
  | integer =>
    intro hmem
    exact ne_of_numeric (numeric_of_mem_integerText hmem) (by decide)
      (by decide) rfl
  | emptyArray => simp
  | array _ ih => simp [ih]
  | emptyObject => simp
  | object _ _ ih => simp [ih]
  | lastItem _ ih => exact ih
  | item _ _ ih ihItems => simp [ih, ihItems]
  | lastMember hkey _ ih => simp [newline_not_mem_body hkey, ih]
  | member hkey _ _ ih ihMembers =>
    simp [newline_not_mem_body hkey, ih, ihMembers]

/-! ## The reader -/

/-- The text behind an expected character. -/
def expect (expected : Char) : List Char → Option (List Char)
  | [] => none
  | c :: text => if c = expected then some text else none

@[simp] theorem expect_cons_self (c : Char) (text : List Char) :
    expect c (c :: text) = some text := by
  simp [expect]

theorem expect_cons_of_ne {c expected : Char} (hne : c ≠ expected)
    (text : List Char) : expect expected (c :: text) = none := by
  simp [expect, hne]

mutual

/-- A value and what is behind it.  Each call spends one unit of fuel. -/
def readValue : Nat → List Char → Option (Json × List Char)
  | 0, _ => none
  | _, [] => none
  | fuel + 1, c :: text =>
    if c = '"' then
      (readString text).map fun read =>
        (.string (String.ofList read.1), read.2)
    else if c = '[' then
      match expect ']' text with
      | some rest => some (.array [], rest)
      | none =>
        (readItems fuel text).bind fun (items, rest) =>
          (expect ']' rest).map fun rest => (.array items, rest)
    else if c = '{' then
      match expect '}' text with
      | some rest => some (.object [], rest)
      | none =>
        (readMembers fuel text).bind fun (members, rest) =>
          if KeysOrdered members then
            (expect '}' rest).map fun rest => (.object members, rest)
          else none
    else readInteger (c :: text)

/-- Values with commas between them, at least one. -/
def readItems : Nat → List Char → Option (List Json × List Char)
  | 0, _ => none
  | fuel + 1, text =>
    (readValue fuel text).bind fun (value, rest) =>
      match expect ',' rest with
      | some more =>
        (readItems fuel more).map fun (items, rest) =>
          (value :: items, rest)
      | none => some ([value], rest)

/-- Members with commas between them, at least one. -/
def readMembers : Nat → List Char → Option (List (String × Json) × List Char)
  | 0, _ => none
  | fuel + 1, text =>
    (expect '"' text).bind fun text =>
    (readString text).bind fun (key, text) =>
    (expect ':' text).bind fun text =>
    (readValue fuel text).bind fun (value, rest) =>
      match expect ',' rest with
      | some more =>
        (readMembers fuel more).map fun (members, rest) =>
          ((String.ofList key, value) :: members, rest)
      | none => some ([(String.ofList key, value)], rest)

end

def read (text : List Char) : Option Json :=
  match readValue (2 * text.length + 1) text with
  | some (value, []) => some value
  | _ => none

/-- What the reader answers on a piece of text with `rest` behind it. -/
def ReadsBack (fuel : Nat) (text rest : List Char) : Part → Prop
  | .value value =>
    NoDigit rest → 2 * text.length < fuel →
      readValue fuel (text ++ rest) = some (value, rest)
  | .items items =>
    (∀ c ∈ rest.head?, c = ']') → 2 * text.length + 1 < fuel →
      readItems fuel (text ++ rest) = some (items, rest)
  | .members members =>
    (∀ c ∈ rest.head?, c = '}') → 2 * text.length + 1 < fuel →
      readMembers fuel (text ++ rest) = some (members, rest)

/-- A value begins with none of the characters that end a list. -/
theorem head_of_derives {part : Part} {text : List Char}
    (hderives : Derives part text) :
    ∃ c more, text = c :: more ∧ c ≠ ']' ∧ c ≠ '}' := by
  induction hderives with
  | string => exact ⟨_, _, rfl, by decide, by decide⟩
  | integer =>
    obtain ⟨c, more, htext, hc⟩ := integerText_eq_cons _
    exact ⟨c, more, htext, ne_of_numeric hc (by decide) (by decide),
      ne_of_numeric hc (by decide) (by decide)⟩
  | emptyArray => exact ⟨_, _, rfl, by decide, by decide⟩
  | array => exact ⟨_, _, rfl, by decide, by decide⟩
  | emptyObject => exact ⟨_, _, rfl, by decide, by decide⟩
  | object => exact ⟨_, _, rfl, by decide, by decide⟩
  | lastItem _ ih => exact ih
  | item _ _ ih _ =>
    obtain ⟨c, more, rfl, h⟩ := ih
    exact ⟨c, _, rfl, h⟩
  | lastMember => exact ⟨_, _, rfl, by decide, by decide⟩
  | member => exact ⟨_, _, rfl, by decide, by decide⟩

theorem noDigit_cons {c : Char} (hc : c.isDigit = false) (rest : List Char) :
    NoDigit (c :: rest) := by
  intro d hd
  rw [List.head?_cons, Option.mem_some_iff] at hd
  rw [← hd, hc]

theorem ends_of_head {rest : List Char} {close : Char}
    (hrest : ∀ c ∈ rest.head?, c = close) (hdigit : close.isDigit = false)
    (hcomma : close ≠ ',') : NoDigit rest ∧ expect ',' rest = none := by
  cases rest with
  | nil =>
    refine ⟨?_, rfl⟩
    intro c hc
    simp at hc
  | cons c rest =>
    obtain rfl := hrest c rfl
    exact ⟨noDigit_cons hdigit rest, expect_cons_of_ne hcomma rest⟩

theorem readsBack_of_derives {part : Part} {text : List Char}
    (hderives : Derives part text) (fuel : Nat) (rest : List Char) :
    ReadsBack fuel text rest part := by
  induction hderives generalizing fuel rest with
  | string hbody =>
    intro _ hfuel
    obtain ⟨fuel, rfl⟩ : ∃ n, fuel = n + 1 := ⟨fuel - 1, by omega⟩
    simp [readValue, readString_of_body hbody]
  | @integer value hfits =>
    intro hrest hfuel
    obtain ⟨fuel, rfl⟩ : ∃ n, fuel = n + 1 := ⟨fuel - 1, by omega⟩
    have hread := readInteger_integerText hfits hrest
    obtain ⟨c, more, htext, hc⟩ := integerText_eq_cons value
    rw [htext, List.cons_append] at hread ⊢
    rw [readValue, if_neg (ne_of_numeric hc (by decide) (by decide)),
      if_neg (ne_of_numeric hc (by decide) (by decide)),
      if_neg (ne_of_numeric hc (by decide) (by decide)), hread]
  | emptyArray =>
    intro _ hfuel
    obtain ⟨fuel, rfl⟩ : ∃ n, fuel = n + 1 := ⟨fuel - 1, by omega⟩
    simp [readValue]
  | @array items text hitems ih =>
    intro _ hfuel
    obtain ⟨fuel, rfl⟩ : ∃ n, fuel = n + 1 := ⟨fuel - 1, by omega⟩
    simp only [List.length_cons, List.length_append, List.length_nil] at hfuel
    obtain ⟨c, more, rfl, hc, -⟩ := head_of_derives hitems
    have hread := ih fuel (']' :: rest) (by simp) (by simp at hfuel ⊢; omega)
    simp only [List.cons_append] at hread
    simp [readValue, expect_cons_of_ne hc, hread]
  | emptyObject =>
    intro _ hfuel
    obtain ⟨fuel, rfl⟩ : ∃ n, fuel = n + 1 := ⟨fuel - 1, by omega⟩
    simp [readValue]
  | @object members text hordered hmembers ih =>
    intro _ hfuel
    obtain ⟨fuel, rfl⟩ : ∃ n, fuel = n + 1 := ⟨fuel - 1, by omega⟩
    simp only [List.length_cons, List.length_append, List.length_nil] at hfuel
    obtain ⟨c, more, rfl, -, hc⟩ := head_of_derives hmembers
    have hread := ih fuel ('}' :: rest) (by simp) (by simp at hfuel ⊢; omega)
    simp only [List.cons_append] at hread
    simp [readValue, expect_cons_of_ne hc, hread, hordered]
  | lastItem _ ih =>
    intro hrest hfuel
    obtain ⟨fuel, rfl⟩ : ∃ n, fuel = n + 1 := ⟨fuel - 1, by omega⟩
    obtain ⟨hdigit, hcomma⟩ := ends_of_head hrest rfl (by decide)
    have hread := ih fuel rest hdigit (by omega)
    simp [readItems, hread, hcomma]
  | @item value items text more _ _ ih ihItems =>
    intro hrest hfuel
    obtain ⟨fuel, rfl⟩ : ∃ n, fuel = n + 1 := ⟨fuel - 1, by omega⟩
    simp only [List.length_cons, List.length_append] at hfuel
    have hread := ih fuel (',' :: (more ++ rest)) (noDigit_cons rfl _)
      (by omega)
    have hmore := ihItems fuel rest hrest (by omega)
    simp [readItems, hread, hmore]
  | @lastMember key text keyText value hkey _ ih =>
    intro hrest hfuel
    obtain ⟨fuel, rfl⟩ : ∃ n, fuel = n + 1 := ⟨fuel - 1, by omega⟩
    simp only [List.length_cons, List.length_append] at hfuel
    obtain ⟨hdigit, hcomma⟩ := ends_of_head hrest rfl (by decide)
    have hread := ih fuel rest hdigit (by omega)
    simp [readMembers, readString_of_body hkey, hread, hcomma]
  | @member key text more keyText value members hkey _ _ ih ihMembers =>
    intro hrest hfuel
    obtain ⟨fuel, rfl⟩ : ∃ n, fuel = n + 1 := ⟨fuel - 1, by omega⟩
    simp only [List.length_cons, List.length_append] at hfuel
    have hread := ih fuel (',' :: (more ++ rest)) (noDigit_cons rfl _)
      (by omega)
    have hmore := ihMembers fuel rest hrest (by omega)
    simp [readMembers, readString_of_body hkey, hread, hmore]

theorem read_eq_some {value : Json} {text : List Char}
    (hderives : Derives (.value value) text) : read text = some value := by
  have hread := readsBack_of_derives hderives (2 * text.length + 1) []
    (by intro c hc; simp at hc) (Nat.lt_succ_self _)
  rw [List.append_nil] at hread
  rw [read, hread]

end Bomwerk.Core.CanonicalJson
