import Bomwerk.Core.Text

/-!
# The YAML subset

`core/yaml_subset.cpp`, as the lockfile producers use its reader: without the
opt-in for sequence items.
-/

namespace Bomwerk.Core.YamlSubset

/-- A character of `kQuoteCharacters`. -/
def isQuote (c : Char) : Bool :=
  c = '"' ∨ c = '\''

/-- The text before the first character outside quotes that stops the scan,
and the text from there on.  The test sees the characters around it. -/
def splitOutsideQuotes (stop : Option Char → Char → List Char → Bool) :
    (openQuote previous : Option Char) → List Char → List Char × List Char
  | _, _, [] => ([], [])
  | some quote, _, c :: rest =>
    if c = '\\' ∧ quote = '"' then
      -- An escaped byte never closes the region.
      match rest with
      | [] => ([c], [])
      | escaped :: rest =>
        let (before, behind) :=
          splitOutsideQuotes stop (some quote) (some escaped) rest
        (c :: escaped :: before, behind)
    else
      let (before, behind) := splitOutsideQuotes stop
        (if c = quote then none else some quote) (some c) rest
      (c :: before, behind)
  | none, previous, c :: rest =>
    if isQuote c then
      let (before, behind) :=
        splitOutsideQuotes stop (some c) (some c) rest
      (c :: before, behind)
    else if stop previous c rest then ([], c :: rest)
    else
      let (before, behind) := splitOutsideQuotes stop none (some c) rest
      (c :: before, behind)

/-- A `#` at the start of the content or behind a blank. -/
def startsComment (previous : Option Char) (c : Char) (_ : List Char) : Bool :=
  c = '#' ∧ (previous = none ∨ previous = some ' ' ∨ previous = some '\t')

def withoutComment (content : List Char) : List Char :=
  (splitOutsideQuotes startsComment none none content).1

/-- A `:` that ends the line or stands before a space. -/
def separatesKey (_ : Option Char) (c : Char) (rest : List Char) : Bool :=
  c = ':' ∧ (rest = [] ∨ rest.head? = some ' ')

/-- The texts around the separator at `key_separator_offset`. -/
def splitKey? (content : List Char) : Option (List Char × List Char) :=
  match splitOutsideQuotes separatesKey none none content with
  | (_, []) => none
  | (key, _ :: value) => some (key, value)

def unquoted (text : List Char) : List Char :=
  match text with
  | first :: second :: rest =>
    if isQuote first ∧ (second :: rest).getLast? = some first then
      (second :: rest).dropLast
    else text
  | _ => text

structure Node where
  indentation : Nat
  key : List Char
  value : List Char
  opensBlock : Bool
  isFlowMapping : Bool
  deriving DecidableEq, Repr

def isSequenceMarker (content : List Char) : Bool :=
  content = ['-'] || ['-', ' '].isPrefixOf content

/-- A character of `kAnchorAliasTagIndicators`. -/
def isAnchorAliasTag (c : Char) : Bool :=
  c = '&' ∨ c = '*' ∨ c = '!'

def isUnsupportedStart (content : List Char) : Bool :=
  isSequenceMarker content || ['-', '-', '-'].isPrefixOf content ||
    ['.', '.', '.'].isPrefixOf content || content.head? = some '[' ||
    content.head?.any isAnchorAliasTag

def opensBlockScalar (value : List Char) : Bool :=
  value.head? = some '|' ∨ value.head? = some '>'

def isUnsupportedValue (value : List Char) : Bool :=
  value.head? = some '[' || value.head?.any isAnchorAliasTag

def isFlowMapping (value : List Char) : Bool :=
  2 ≤ value.length ∧ value.head? = some '{' ∧ value.getLast? = some '}'

inductive LineResult
  | nothing
  | unsupported
  | node (node : Node)
  deriving DecidableEq, Repr

/-- The node of a line whose key and value are known. -/
def nodeOf (indentation : Nat) (key value : List Char) : Node where
  indentation := indentation
  key := key
  value :=
    if isFlowMapping value then trimmed value.tail.dropLast
    else unquoted value
  opensBlock := value = []
  isFlowMapping := isFlowMapping value

/-- The end of `read_line`, behind the indentation, with the indentation of
the block scalar that the line opens. -/
def readContent (indentation : Nat) (content : List Char) :
    Option Nat × LineResult :=
  if content = [] then (none, .nothing)
  else if isUnsupportedStart content then (none, .unsupported)
  else
    match splitKey? content with
    | none => (none, .unsupported)
    | some (keyText, valueText) =>
      let key := unquoted (trimmed keyText)
      let value := trimmed valueText
      if key = [] then (none, .unsupported)
      else if opensBlockScalar value then (some indentation, .unsupported)
      else if isUnsupportedValue value then (none, .unsupported)
      else (none, .node (nodeOf indentation key value))

/-- `Reader::read_line`; the state is `block_scalar_indentation_`. -/
def readLine (blockScalarIndentation : Option Nat) (rawLine : List Char) :
    Option Nat × LineResult :=
  if trimmed rawLine = [] then (blockScalarIndentation, .nothing)
  else
    let indentation := leadingSpaceCount rawLine
    if blockScalarIndentation.any (· < indentation) then
      (blockScalarIndentation, .unsupported)
    else
      let behind := rawLine.drop indentation
      if behind.head? = some '\t' then (none, .unsupported)
      else readContent indentation (trimmed (withoutComment behind))

def readLines : Option Nat → List (List Char) → List LineResult
  | _, [] => []
  | blockScalarIndentation, line :: lines =>
    let (blockScalarIndentation, result) :=
      readLine blockScalarIndentation line
    result :: readLines blockScalarIndentation lines

/-- What a `Reader` yields on a text. -/
def lineResults (text : List Char) : List LineResult :=
  readLines none (text.splitOn '\n')

end Bomwerk.Core.YamlSubset
