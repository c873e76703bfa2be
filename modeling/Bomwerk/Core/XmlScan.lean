import Bomwerk.Core.Text

/-!
# The XML scanner

`core/xml_scan.cpp`: the minimal scanner that the pom.xml and MSBuild readers
share.  A position in a text is the text from there on.
-/

namespace Bomwerk.Core.XmlScan

def isXmlWhitespace (c : Char) : Bool :=
  c = ' ' ∨ c = '\t' ∨ c = '\r' ∨ c = '\n'

/-- The text before and behind the first occurrence of a pattern. -/
def splitAtFirst (pattern : List Char) : List Char → Option (List Char × List Char)
  | [] => if pattern = [] then some ([], []) else none
  | c :: text =>
    if pattern.isPrefixOf (c :: text) then
      some ([], (c :: text).drop pattern.length)
    else (splitAtFirst pattern text).map fun (before, rest) =>
      (c :: before, rest)

def newlinesOf (removed : List Char) : List Char :=
  removed.filter (· = '\n')

def commentOpen : List Char := ['<', '!', '-', '-']

def commentClose : List Char := ['-', '-', '>']

def cdataOpen : List Char := ['<', '!', '[', 'C', 'D', 'A', 'T', 'A', '[']

def cdataClose : List Char := [']', ']', '>']

/-- The loop of `strip_comments_and_unwrap_cdata`; every turn consumes a
character, so the length of the text is fuel enough. -/
def stripFrom : (fuel : Nat) → List Char → List Char
  | 0, _ => []
  | _ + 1, [] => []
  | fuel + 1, c :: text =>
    if commentOpen.isPrefixOf (c :: text) then
      match splitAtFirst commentClose ((c :: text).drop 4) with
      | none => []
      | some (comment, rest) => newlinesOf comment ++ stripFrom fuel rest
    else if cdataOpen.isPrefixOf (c :: text) then
      match splitAtFirst cdataClose ((c :: text).drop 9) with
      | none => []
      | some (content, rest) => content ++ stripFrom fuel rest
    else c :: stripFrom fuel text

def stripCommentsAndUnwrapCdata (xml : List Char) : List Char :=
  stripFrom xml.length xml

/-- `ElementMatch`: the text before the element, the text inside it, and the
text where scanning resumes. -/
structure ElementMatch where
  before : List Char
  innerText : List Char
  rest : List Char
  deriving DecidableEq, Repr

def closingTag (tagName : List Char) : List Char :=
  '<' :: '/' :: (tagName ++ ['>'])

/-- What `find_element` does at a `<`: nothing for a tag of another name,
`some none` for a tag that cannot be paired. -/
def elementBehind? (tagName behind : List Char) :
    Option (Option (List Char × List Char)) :=
  if !tagName.isPrefixOf behind then none
  else
    match behind.drop tagName.length with
    | [] => none
    | c :: afterName =>
      if c ≠ '>' ∧ c ≠ '/' ∧ !isXmlWhitespace c then none
      else
        match splitAtFirst ['>'] (c :: afterName) with
        | none => some none
        | some (attributes, afterOpen) =>
          if (tagName ++ attributes).getLast? = some '/' then
            some (some ([], afterOpen))
          else some (splitAtFirst (closingTag tagName) afterOpen)

/-- `find_element`, from a position of the text on. -/
def findElement (tagName : List Char) : List Char → Option ElementMatch
  | [] => none
  | c :: text =>
    let further := (findElement tagName text).map fun element =>
      { element with before := c :: element.before }
    if c ≠ '<' then further
    else
      match elementBehind? tagName text with
      | none => further
      | some found => found.map fun (innerText, rest) =>
        { before := [], innerText := innerText, rest := rest }

structure ChildElement where
  name : List Char
  text : List Char
  deriving DecidableEq, Repr

/-- The loop of `child_elements`; every turn consumes a character. -/
def childElementsFrom : (fuel : Nat) → List Char → List ChildElement
  | 0, _ => []
  | fuel + 1, body =>
    match body.dropWhile (· ≠ '<') with
    | [] => []
    | opening :: behind =>
      let name := behind.takeWhile fun c =>
        c ≠ '>' ∧ c ≠ '/' ∧ !isXmlWhitespace c
      if name = [] then childElementsFrom fuel behind
      else
        match findElement name (opening :: behind) with
        | none => childElementsFrom fuel behind
        | some child =>
          { name := name, text := trimmed child.innerText } ::
            childElementsFrom fuel child.rest

def childElements (body : List Char) : List ChildElement :=
  childElementsFrom body.length body

/-- `line_number_at`, for the text before the position. -/
def lineNumberAt (before : List Char) : Nat :=
  1 + before.count '\n'

end Bomwerk.Core.XmlScan
