import Bomwerk.Support.Transducer
import Mathlib.Data.Char

/-!
# The directives of a C text

What a C preprocessor sees of a text: lines that end in a backslash are joined
with the next, a comment becomes a space, and a line whose first character is
`#` is a directive.  Every character keeps its place in the text.
-/

namespace Bomwerk.Support.CDirectives

/-- A character, and how many stand in front of it in the text. -/
structure Placed where
  offset : Nat
  character : UInt8
  deriving DecidableEq

/-- A text of which so many characters stand in front. -/
def placed (offset : Nat) : List UInt8 → List Placed
  | [] => []
  | character :: text => ⟨offset, character⟩ :: placed (offset + 1) text

def characters (items : List Placed) : List UInt8 := items.map Placed.character

def newline : UInt8 := '\n'.toUInt8

def isBlank (character : UInt8) : Bool :=
  character = ' '.toUInt8 || character = '\t'.toUInt8 ||
    character = '\r'.toUInt8 || character = 11 || character = 12

def isDigit (character : UInt8) : Bool :=
  '0'.toUInt8 ≤ character && character ≤ '9'.toUInt8

def isIdentifier (character : UInt8) : Bool :=
  isDigit character || character = '_'.toUInt8 ||
    ('A'.toUInt8 ≤ character && character ≤ 'Z'.toUInt8) ||
    ('a'.toUInt8 ≤ character && character ≤ 'z'.toUInt8)

/-- A backslash, and one with a carriage return behind it, may be the end of a
line that goes on. -/
inductive Joining where
  | plain
  | backslash (offset : Nat)
  | carriageReturn (offset carriage : Nat)
  deriving DecidableEq

def Joining.held : Joining → List Placed
  | plain => []
  | backslash offset => [⟨offset, '\\'.toUInt8⟩]
  | carriageReturn offset carriage =>
    [⟨offset, '\\'.toUInt8⟩, ⟨carriage, '\r'.toUInt8⟩]

/-- A backslash in front of the end of a line joins the lines. -/
def joiner : Transducer Joining Placed Placed where
  step state item :=
    if state ≠ .plain ∧ item.character = newline then (.plain, [])
    else if item.character = '\\'.toUInt8 then
      (.backslash item.offset, state.held)
    else
      match state with
      | .backslash offset =>
        if item.character = '\r'.toUInt8 then
          (.carriageReturn offset item.offset, [])
        else (.plain, state.held ++ [item])
      | _ => (.plain, state.held ++ [item])
  flush := Joining.held

inductive Reading where
  | code
  | slash (offset : Nat)
  | lineComment
  | blockComment
  | star
  | literal (delimiter : UInt8)
  | escape (delimiter : UInt8)
  deriving DecidableEq

/-- A slash is held back, since it may start a comment. -/
def Reading.held : Reading → List Placed
  | slash offset => [⟨offset, '/'.toUInt8⟩]
  | _ => []

/-- A character outside comments and literals. -/
def readCode (item : Placed) : Reading × List Placed :=
  if item.character = '/'.toUInt8 then (.slash item.offset, [])
  else if item.character = '"'.toUInt8 ∨ item.character = '\''.toUInt8 then
    (.literal item.character, [item])
  else (.code, [item])

/-- Every comment becomes a space; there are none in a literal, and none of the
literals goes on behind its line. -/
def uncommenter : Transducer Reading Placed Placed where
  step state item :=
    match state with
    | .code => readCode item
    | .slash offset =>
      if item.character = '/'.toUInt8 then
        (.lineComment, [⟨offset, ' '.toUInt8⟩])
      else if item.character = '*'.toUInt8 then
        (.blockComment, [⟨offset, ' '.toUInt8⟩])
      else
        ((readCode item).1, ⟨offset, '/'.toUInt8⟩ :: (readCode item).2)
    | .lineComment =>
      if item.character = newline then (.code, [item])
      else (.lineComment, [])
    | .blockComment =>
      (if item.character = '*'.toUInt8 then .star else .blockComment, [])
    | .star =>
      (if item.character = '/'.toUInt8 then .code
        else if item.character = '*'.toUInt8 then .star
        else .blockComment, [])
    | .literal delimiter =>
      (if item.character = newline ∨ item.character = delimiter then .code
        else if item.character = '\\'.toUInt8 then .escape delimiter
        else .literal delimiter, [item])
    | .escape delimiter =>
      (if item.character = newline then .code else .literal delimiter, [item])
  flush := Reading.held

/-- A text without comments, its lines joined. -/
def visible (text : List UInt8) : List Placed :=
  uncommenter.run .code (joiner.run .plain (placed 0 text))

def linesFrom (line : List Placed) : List Placed → List (List Placed)
  | [] => [line]
  | item :: items =>
    if item.character = newline then line :: linesFrom [] items
    else linesFrom (line ++ [item]) items

def lines (items : List Placed) : List (List Placed) := linesFrom [] items

/-- A `#define`: where its `#` stands, its name, and what stands behind the name
without the blanks around it. -/
structure Directive where
  offset : Nat
  name : List UInt8
  replacement : List UInt8
  deriving DecidableEq

def trimmed (text : List UInt8) : List UInt8 :=
  ((text.dropWhile isBlank).reverse.dropWhile isBlank).reverse

def defineKeyword : List UInt8 := "define".toList.map Char.toUInt8

/-- The name and the replacement of a `#define`, from what stands behind the
`#`. -/
def defineText (text : List UInt8) : Option (List UInt8 × List UInt8) :=
  if defineKeyword.isPrefixOf text then
    let rest := text.drop defineKeyword.length
    let behind := rest.dropWhile isBlank
    let name := behind.takeWhile isIdentifier
    if rest.head?.any isBlank ∧ name ≠ [] ∧ name.head?.all (!isDigit ·) then
      some (name, trimmed (behind.drop name.length))
    else none
  else none

def lineDirective (line : List Placed) : Option Directive :=
  match line.dropWhile fun item => isBlank item.character with
  | [] => none
  | hash :: rest =>
    if hash.character = '#'.toUInt8 then
      (defineText ((characters rest).dropWhile isBlank)).map
        fun (name, replacement) => ⟨hash.offset, name, replacement⟩
    else none

/-- The `#define` directives that a preprocessor sees. -/
def directives (text : List UInt8) : List Directive :=
  (lines (visible text)).filterMap lineDirective

/-- The text of a literal up to its quote; a backslash takes the next character
with it. -/
def literalText : List UInt8 → Option (List UInt8)
  | [] => none
  | [character] => if character = '"'.toUInt8 then some [] else none
  | character :: next :: rest =>
    if character = '"'.toUInt8 then some []
    else if character = '\\'.toUInt8 then
      (literalText rest).map (character :: next :: ·)
    else (literalText (next :: rest)).map (character :: ·)

def stringLiteral : List UInt8 → Option (List UInt8)
  | [] => none
  | character :: rest =>
    if character = '"'.toUInt8 then literalText rest else none

/-- No backslash at the end of the text takes what is behind it. -/
def EscapesPaired : List UInt8 → Prop
  | [] => True
  | [character] => character ≠ '\\'.toUInt8
  | character :: next :: rest =>
    if character = '\\'.toUInt8 then EscapesPaired rest
    else EscapesPaired (next :: rest)

/-- Only blanks stand behind the last newline. -/
def AtFront (items : List Placed) : Prop :=
  (items.reverse.dropWhile fun item => isBlank item.character).head?.all
    (·.character = newline) = true

/-- Behind this text a `#` makes a directive: it stands outside comments, with
only blanks and comments in front of it on its line. -/
def OpensDirective (before : List UInt8) : Prop :=
  uncommenter.after .code (joiner.output .plain (placed 0 before)) = .code ∧
    AtFront (uncommenter.output .code (joiner.output .plain (placed 0 before)))

/-- What a preprocessor sees of a text, from outside comments to the end of the
line. -/
def visibleLine (offset : Nat) (text : List UInt8) : List UInt8 :=
  characters ((uncommenter.run .code
    (joiner.run .plain (placed offset text))).takeWhile
      (·.character ≠ newline))

end Bomwerk.Support.CDirectives
