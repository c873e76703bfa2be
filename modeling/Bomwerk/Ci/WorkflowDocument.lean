import Bomwerk.Ci.GithubActions

/-!
# Workflow documents

Block mappings, block sequences, plain and quoted scalars on one line, comments
and block scalars, line by line.  Nothing here is read off the scanner; how the
lines of a document are indented against each other is left open.
-/

namespace Bomwerk.Ci.GithubActions

open Bomwerk.Core

/-! ## Scalars -/

/-- A character that no plain scalar begins with. -/
def plainIndicators : List Char :=
  [',', '[', ']', '\x7b', '\x7d', '#', '&', '*', '!', '|', '>', '\'', '"', '%',
    '@', '\x60']

structure IsPlainScalar (text : List Char) : Prop where
  first : ∃ c rest, text = c :: rest ∧ c ∉ plainIndicators ∧
    isAsciiBlank c = false ∧
      (c ∈ ['-', '?', ':'] → ∃ next ∈ rest.head?, isAsciiBlank next = false)
  last : ∃ c ∈ text.getLast?, isAsciiBlank c = false
  colon : ∀ before after, text = before ++ ':' :: after →
    ∃ c ∈ after.head?, isAsciiBlank c = false
  hash : ∀ before after, text = before ++ '#' :: after →
    ∃ c ∈ before.getLast?, isAsciiBlank c = false
  one_line : '\n' ∉ text ∧ '\r' ∉ text

/-- A text without marks and blanks is a plain scalar. -/
theorem isPlainScalar_of_forall {c : Char} {rest : List Char}
    (hfirst : c ∉ '-' :: '?' :: plainIndicators)
    (hsolid : (c :: rest).all
      (fun d => d ≠ ':' ∧ d ≠ '#' ∧ isAsciiBlank d = false) = true) :
    IsPlainScalar (c :: rest) := by
  rw [List.mem_cons, List.mem_cons, not_or, not_or] at hfirst
  obtain ⟨hdash, hquestion, hindicator⟩ := hfirst
  have hall : ∀ d ∈ c :: rest, d ≠ ':' ∧ d ≠ '#' ∧ isAsciiBlank d = false := by
    intro d hd
    exact of_decide_eq_true (List.all_eq_true.mp hsolid d hd)
  constructor
  · refine ⟨c, rest, rfl, hindicator, (hall c List.mem_cons_self).2.2, ?_⟩
    intro hmark
    simp only [List.mem_cons, List.not_mem_nil, or_false, hdash, hquestion,
      (hall c List.mem_cons_self).1] at hmark
  · exact ⟨_, List.getLast?_eq_some_getLast (List.cons_ne_nil c rest),
      (hall _ (List.getLast_mem _)).2.2⟩
  · intro before after htext
    exact absurd rfl (hall ':' (by rw [htext]; simp)).1
  · intro before after htext
    exact absurd rfl (hall '#' (by rw [htext]; simp)).2.1
  · constructor
    · intro hmem
      exact absurd (hall _ hmem).2.2 (by decide)
    · intro hmem
      exact absurd (hall _ hmem).2.2 (by decide)

def simpleEscapes : List (Char × Char) :=
  [('0', '\x00'), ('a', '\x07'), ('b', '\x08'), ('t', '\t'), ('\t', '\t'),
    ('n', '\n'), ('v', '\x0b'), ('f', '\x0c'), ('r', '\r'), ('e', '\x1b'),
    (' ', ' '), ('"', '"'), ('/', '/'), ('\\', '\\'), ('N', '\u0085'),
    ('_', '\u00a0'), ('L', '\u2028'), ('P', '\u2029')]

/-- The escapes by number, with their count of digits. -/
def numericEscapes : List (Char × Nat) := [('x', 2), ('u', 4), ('U', 8)]

def hexNumber (digits : List Char) : Nat :=
  digits.foldl (fun number digit =>
    16 * number +
      ((hexDigitValue (UInt8.ofNat digit.toNat)).map UInt8.toNat).getD 0) 0

inductive QuotedPiece
  | plain (c : Char)
  | simple (code : Char)
  | numeric (code : Char) (digits : List Char)
  deriving DecidableEq, Repr

namespace QuotedPiece

def text : QuotedPiece → List Char
  | plain c => [c]
  | simple code => ['\\', code]
  | numeric code digits => '\\' :: code :: digits

def value : QuotedPiece → Char
  | plain c => c
  | simple code => (simpleEscapes.lookup code).getD code
  | numeric _ digits => Char.ofNat (hexNumber digits)

def IsWritten : QuotedPiece → Prop
  | plain c => c ∉ ['"', '\\', '\n', '\r']
  | simple code => (simpleEscapes.lookup code).isSome = true
  | numeric code digits => numericEscapes.lookup code = some digits.length ∧
      ∀ c ∈ digits, isHexDigit c = true

end QuotedPiece

inductive Scalar
  | plain (text : List Char)
  | singleQuoted (value : List Char)
  | doubleQuoted (pieces : List QuotedPiece)
  deriving DecidableEq, Repr

namespace Scalar

/-- A quote is doubled between single quotes. -/
def doubled (value : List Char) : List Char :=
  value.flatMap fun c => if c = '\'' then ['\'', '\''] else [c]

def text : Scalar → List Char
  | plain text => text
  | singleQuoted value => '\'' :: (doubled value ++ ['\''])
  | doubleQuoted pieces => '"' :: (pieces.flatMap QuotedPiece.text ++ ['"'])

def value : Scalar → List Char
  | plain text => text
  | singleQuoted value => value
  | doubleQuoted pieces => pieces.map QuotedPiece.value

def IsWritten : Scalar → Prop
  | plain text => IsPlainScalar text
  | singleQuoted value => '\n' ∉ value ∧ '\r' ∉ value
  | doubleQuoted pieces => ∀ piece ∈ pieces, piece.IsWritten

end Scalar

/-! ## Lines -/

/-- Spaces and tabs. -/
def IsSeparation (blanks : List Char) : Prop :=
  ∀ c ∈ blanks, c = ' ' ∨ c = '\t'

/-- The header of a block scalar: its style, and how it is chomped and
indented. -/
def IsBlockHeader (header : List Char) : Prop :=
  ∃ style ∈ ['|', '>'], ∃ chomping ∈ [[], ['+'], ['-']],
    ∃ digits ∈ [[], ['1'], ['2'], ['3'], ['4'], ['5'], ['6'], ['7'], ['8'],
      ['9']],
      header = style :: (chomping ++ digits) ∨
        header = style :: (digits ++ chomping)

/-- What stands behind the colon of a mapping entry, on its line. -/
inductive EntryValue
  | nothing
  | scalar (gap : List Char) (value : Scalar)
  | blockScalar (gap header : List Char)
  deriving DecidableEq, Repr

namespace EntryValue

def text : EntryValue → List Char
  | nothing => []
  | scalar gap value => gap ++ value.text
  | blockScalar gap header => gap ++ header

def IsWritten : EntryValue → Prop
  | nothing => True
  | scalar gap value => gap ≠ [] ∧ IsSeparation gap ∧ value.IsWritten
  | blockScalar gap header =>
    gap ≠ [] ∧ IsSeparation gap ∧ IsBlockHeader header

end EntryValue

/-- What a line holds behind the markers of sequence items. -/
inductive Content
  | dash
  | scalar (value : Scalar)
  | blockScalar (header : List Char)
  | entry (key : Scalar) (beforeColon : List Char) (value : EntryValue)
  deriving DecidableEq, Repr

namespace Content

def text : Content → List Char
  | dash => ['-']
  | scalar value => value.text
  | blockScalar header => header
  | entry key beforeColon value =>
    key.text ++ (beforeColon ++ ':' :: value.text)

def IsWritten : Content → Prop
  | dash => True
  | scalar value => value.IsWritten
  | blockScalar header => IsBlockHeader header
  | entry key beforeColon value =>
    key.IsWritten ∧ IsSeparation beforeColon ∧ value.IsWritten

end Content

/-- The end of a line. -/
structure Trailing where
  blanks : List Char := []
  comment : Option (List Char) := none
  carriageReturn : Bool := false
  deriving DecidableEq, Repr

namespace Trailing

variable (trailing : Trailing)

def text : List Char :=
  trailing.blanks ++ ((trailing.comment.map (List.cons '#')).getD [] ++
    if trailing.carriageReturn then ['\r'] else [])

structure IsWritten : Prop where
  blanks : IsSeparation trailing.blanks
  comment : ∀ comment ∈ trailing.comment,
    trailing.blanks ≠ [] ∧ '\n' ∉ comment ∧ '\r' ∉ comment

end Trailing

/-- A line that holds a node of the document; each marker is given by the
spaces behind its first. -/
structure NodeLine where
  indentation : Nat := 0
  markers : List Nat := []
  content : Content
  trailing : Trailing := {}
  deriving DecidableEq, Repr

namespace NodeLine

variable (line : NodeLine)

def markersText : List Char :=
  line.markers.flatMap fun spaces => '-' :: ' ' :: List.replicate spaces ' '

def behind : List Char :=
  line.markersText ++ (line.content.text ++ line.trailing.text)

def text : List Char :=
  List.replicate line.indentation ' ' ++ line.behind

def keyColumn : Nat := line.indentation + line.markersText.length

structure IsWritten : Prop where
  content : line.content.IsWritten
  trailing : line.trailing.IsWritten

/-- The entry of a mapping with the key `uses`. -/
def IsUsesEntry : Prop :=
  ∃ key beforeColon value,
    line.content = .entry key beforeColon value ∧ key.value = usesKey

instance : Decidable line.IsUsesEntry :=
  match h : line.content with
  | .dash => .isFalse fun hline => by
      obtain ⟨_, _, _, hcontent, _⟩ := hline
      cases h.symm.trans hcontent
  | .scalar _ => .isFalse fun hline => by
      obtain ⟨_, _, _, hcontent, _⟩ := hline
      cases h.symm.trans hcontent
  | .blockScalar _ => .isFalse fun hline => by
      obtain ⟨_, _, _, hcontent, _⟩ := hline
      cases h.symm.trans hcontent
  | .entry key beforeColon value =>
    if hkey : key.value = usesKey then
      .isTrue ⟨key, beforeColon, value, h, hkey⟩
    else .isFalse fun hline => by
      obtain ⟨_, _, _, hcontent, hvalue⟩ := hline
      cases h.symm.trans hcontent
      exact hkey hvalue

/-- The line opens a block scalar whose body is deeper than `column`: that of
its key or, where the header has a line of its own, one to the left of it. -/
def OpensBlock (column : Nat) : Prop :=
  (∃ key beforeColon gap header, line.content =
      .entry key beforeColon (.blockScalar gap header) ∧
        column = line.keyColumn) ∨
    ∃ header, line.content = .blockScalar header ∧ column < line.keyColumn

end NodeLine

inductive DocumentLine
  | blank (text : List Char)
  | comment (blanks text : List Char)
  | node (line : NodeLine)
  | body (text : List Char)
  deriving DecidableEq, Repr

namespace DocumentLine

def text : DocumentLine → List Char
  | blank text => text
  | comment blanks text => blanks ++ '#' :: text
  | node line => line.text
  | body text => text

def isUsesEntry : DocumentLine → Bool
  | node line => line.IsUsesEntry
  | _ => false

end DocumentLine

/-- The lines of a document; what is in the body of a block scalar is blank or
deeper than its key. -/
inductive IsDocument : List DocumentLine → Prop
  | nil : IsDocument []
  | blank {text rest} : trimmed text = [] → '\n' ∉ text → IsDocument rest →
      IsDocument (.blank text :: rest)
  | comment {blanks text rest} : IsSeparation blanks → '\n' ∉ text →
      IsDocument rest → IsDocument (.comment blanks text :: rest)
  | node {line rest} : line.IsWritten →
      (∀ column, ¬line.OpensBlock column) → IsDocument rest →
        IsDocument (.node line :: rest)
  | block {line column rest} {body : List (List Char)} : line.IsWritten → line.OpensBlock column →
      (∀ text ∈ body, '\n' ∉ text ∧
        (trimmed text = [] ∨ column < leadingSpaceCount text)) →
        IsDocument rest →
          IsDocument (.node line :: (body.map DocumentLine.body ++ rest))

/-- A workflow document; a byte order mark in front of it is not part of its
lines. -/
structure WorkflowDocument where
  byteOrderMark : Bool := false
  lines : List DocumentLine
  lines_ne_nil : lines ≠ []
  isDocument : IsDocument lines
  lines_no_bom :
    ¬utf8Bom <+: ['\n'].intercalate (lines.map DocumentLine.text)

def WorkflowDocument.text (document : WorkflowDocument) : List Char :=
  (if document.byteOrderMark then utf8Bom else []) ++
    ['\n'].intercalate (document.lines.map DocumentLine.text)

end Bomwerk.Ci.GithubActions
