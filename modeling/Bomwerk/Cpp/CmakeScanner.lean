import Bomwerk.Core.Warning
import Mathlib.Data.Char

/-!
# Scanning CMake commands

`parsers/cpp/cmake_scanner.cpp`: a lexer with one cursor, which keeps the bytes
that are left and the line it is on.
-/

namespace Bomwerk.Cpp

open Bomwerk.Core

def maxCommandsPerFile : Nat := 20000

def maxArgumentsPerCommand : Nat := 4000

def maxParenDepth : Nat := 64

def maxArgumentBytes : Nat := 64 * 1024

def isSpace (character : UInt8) : Bool :=
  character = ' '.toUInt8 || character = '\t'.toUInt8 ||
    character = '\r'.toUInt8 || character = '\n'.toUInt8

def isIdentifierStart (character : UInt8) : Bool :=
  ('A'.toUInt8 ≤ character && character ≤ 'Z'.toUInt8) ||
    ('a'.toUInt8 ≤ character && character ≤ 'z'.toUInt8) ||
    character = '_'.toUInt8

def isIdentifierChar (character : UInt8) : Bool :=
  isIdentifierStart character ||
    ('0'.toUInt8 ≤ character && character ≤ '9'.toUInt8)

structure CmakeCommand where
  name : List UInt8
  arguments : List (List UInt8)
  line : Nat
  wellFormed : Bool := true
  deriving DecidableEq

/-- What is left of `text_`, `line_`, and the warnings so far. -/
structure Cursor where
  rest : List UInt8
  line : Nat := 1
  warnings : List Warning := []

namespace Cursor

/-- `advance`, so many times. -/
def advance (cursor : Cursor) (count : Nat) : Cursor :=
  { cursor with
    rest := cursor.rest.drop count
    line := cursor.line + (cursor.rest.take count).count '\n'.toUInt8 }

def warn (cursor : Cursor) (code : WarningCode) (message : List UInt8) :
    Cursor :=
  { cursor with
    warnings := cursor.warnings ++
      [{ code := code
         message := String.ofList (message.map fun byte => Char.ofNat byte.toNat)
         ecosystem := "cmake" }] }

end Cursor

def text (message : String) : List UInt8 := message.toList.map Char.toUInt8

/-- What `match_bracket_close` looks for. -/
def bracketCloser (equalsCount : Nat) : List UInt8 :=
  ']'.toUInt8 :: (List.replicate equalsCount '='.toUInt8 ++ [']'.toUInt8])

/-- `match_bracket_open`: the `equals_count` of an opener at the front, which
has two more characters. -/
def matchBracketOpen : List UInt8 → Option Nat
  | [] => none
  | character :: rest =>
    let equals := (rest.takeWhile (· = '='.toUInt8)).length
    if character = '['.toUInt8 ∧ rest[equals]? = some '['.toUInt8 then
      some equals
    else none

def matchBracketClose (equalsCount : Nat) (rest : List UInt8) : Bool :=
  (bracketCloser equalsCount).isPrefixOf rest

/-- The loops up to a closing bracket: what stands in front of it. -/
def bracketText (equalsCount : Nat) : List UInt8 → Option (List UInt8)
  | [] => none
  | character :: rest =>
    if matchBracketClose equalsCount (character :: rest) then some []
    else (bracketText equalsCount rest).map (character :: ·)

def skipComment (cursor : Cursor) : Cursor :=
  let cursor := cursor.advance 1
  match matchBracketOpen cursor.rest with
  | some equalsCount =>
    let cursor := cursor.advance (equalsCount + 2)
    match bracketText equalsCount cursor.rest with
    | some body => cursor.advance (body.length + (equalsCount + 2))
    | none =>
      (cursor.advance cursor.rest.length).warn .malformedEntrySkipped
        (text "cmake: unterminated bracket comment")
  | none =>
    cursor.advance (cursor.rest.takeWhile (· ≠ '\n'.toUInt8)).length

/-- The loop of `skip_ignorable`; it ends within the number of bytes left. -/
def skipIgnorableWithin : (fuel : Nat) → Cursor → Cursor
  | 0, cursor => cursor
  | fuel + 1, cursor =>
    match cursor.rest with
    | [] => cursor
    | character :: _ =>
      if isSpace character then
        skipIgnorableWithin fuel (cursor.advance 1)
      else if character = '#'.toUInt8 then
        skipIgnorableWithin fuel (skipComment cursor)
      else cursor

def skipIgnorable (cursor : Cursor) : Cursor :=
  skipIgnorableWithin cursor.rest.length cursor

/-- What a loop over the characters of an argument has read: its value, how many
characters it has passed, and whether its delimiter was there. -/
structure ArgumentText where
  value : List UInt8 := []
  passed : Nat := 0
  terminated : Bool := false
  deriving DecidableEq

/-- A character of the value, which was so many characters long. -/
def ArgumentText.push (read : ArgumentText) (character : UInt8)
    (length : Nat) : ArgumentText :=
  { read with value := character :: read.value, passed := read.passed + length }

/-- The loop of `read_quoted_argument`. -/
def quotedText : List UInt8 → ArgumentText
  | [] => {}
  | [character] =>
    if character = '"'.toUInt8 then { passed := 1, terminated := true }
    else if character = '\\'.toUInt8 then { passed := 1 }
    else { value := [character], passed := 1 }
  | character :: next :: rest =>
    if character = '"'.toUInt8 then { passed := 1, terminated := true }
    else if character = '\\'.toUInt8 then (quotedText rest).push next 2
    else (quotedText (next :: rest)).push character 1

def endsBareArgument (character : UInt8) : Bool :=
  isSpace character || character = '('.toUInt8 || character = ')'.toUInt8 ||
    character = '"'.toUInt8

/-- The loop of `read_bare_argument`; no delimiter ends it. -/
def bareText : List UInt8 → ArgumentText
  | [] => {}
  | [character] =>
    if character = '\\'.toUInt8 then { passed := 1 }
    else if endsBareArgument character then {}
    else { value := [character], passed := 1 }
  | character :: next :: rest =>
    if character = '\\'.toUInt8 then (bareText rest).push next 2
    else if endsBareArgument character then {}
    else (bareText (next :: rest)).push character 1

/-- What `append_bounded` keeps of the characters of a value. -/
def bounded (value : List UInt8) : List UInt8 := value.take maxArgumentBytes

def readQuotedArgument (cursor : Cursor) : Cursor × List UInt8 :=
  let cursor := cursor.advance 1
  let read := quotedText cursor.rest
  let cursor := cursor.advance read.passed
  (if read.terminated then cursor
    else
      cursor.warn .malformedEntrySkipped
        (text "cmake: unterminated quoted argument"),
    bounded read.value)

/-- `read_bracket_argument`, behind the opener. -/
def readBracketArgument (equalsCount : Nat) (cursor : Cursor) :
    Cursor × List UInt8 :=
  match bracketText equalsCount cursor.rest with
  | some body =>
    (cursor.advance (body.length + (equalsCount + 2)), bounded body)
  | none =>
    ((cursor.advance cursor.rest.length).warn .malformedEntrySkipped
      (text "cmake: unterminated bracket argument"), bounded cursor.rest)

def readBareArgument (cursor : Cursor) : Cursor × List UInt8 :=
  let read := bareText cursor.rest
  (cursor.advance read.passed, bounded read.value)

/-- The three forms, by the first character. -/
def readArgument (cursor : Cursor) : Cursor × List UInt8 :=
  if cursor.rest.head? = some '"'.toUInt8 then readQuotedArgument cursor
  else
    match matchBracketOpen cursor.rest with
    | some equalsCount =>
      readBracketArgument equalsCount (cursor.advance (equalsCount + 2))
    | none => readBareArgument cursor

/-- What stands behind the loop of `read_arguments`. -/
def endPartial (name : List UInt8) (startLine : Nat)
    (arguments : List (List UInt8)) (stoppedEarly : Bool) (cursor : Cursor) :
    Cursor × CmakeCommand :=
  (if stoppedEarly then cursor
    else
      cursor.warn .malformedEntrySkipped
        (text "cmake: unterminated command " ++ name ++
          text (" starting at line " ++ toString startLine)),
    { name := name, arguments := arguments, line := startLine
      wellFormed := false })

/-- The loop of `read_arguments`; it ends within the number of bytes left. -/
def readArgumentsWithin (name : List UInt8) (startLine : Nat) :
    (fuel : Nat) → List (List UInt8) → Nat → Cursor → Cursor × CmakeCommand
  | 0, arguments, _, cursor => endPartial name startLine arguments false cursor
  | fuel + 1, arguments, parenDepth, cursor =>
    let cursor := skipIgnorable cursor
    match cursor.rest with
    | [] => endPartial name startLine arguments false cursor
    | character :: _ =>
      if character = ')'.toUInt8 then
        if parenDepth = 1 then
          (cursor.advance 1,
            { name := name, arguments := arguments, line := startLine })
        else
          readArgumentsWithin name startLine fuel arguments (parenDepth - 1)
            (cursor.advance 1)
      else if character = '('.toUInt8 then
        if maxParenDepth < parenDepth + 1 then
          endPartial name startLine arguments true
            ((cursor.advance 1).warn .entryLimitReached
              (text ("cmake: parenthesis nesting too deep near line " ++
                toString (cursor.advance 1).line)))
        else
          readArgumentsWithin name startLine fuel arguments (parenDepth + 1)
            (cursor.advance 1)
      else if maxArgumentsPerCommand ≤ arguments.length then
        endPartial name startLine arguments true
          (cursor.warn .entryLimitReached
            (text "cmake: too many arguments to " ++ name ++
              text (" near line " ++ toString startLine)))
      else
        let (cursor, value) := readArgument cursor
        readArgumentsWithin name startLine fuel (arguments ++ [value])
          parenDepth cursor

/-- `read_command`; nothing for a bare identifier. -/
def readCommand (cursor : Cursor) : Cursor × Option CmakeCommand :=
  let name := cursor.rest.takeWhile isIdentifierChar
  let startLine := cursor.line
  let cursor := skipIgnorable (cursor.advance name.length)
  if cursor.rest.head? = some '('.toUInt8 then
    let cursor := cursor.advance 1
    let (cursor, command) := readArgumentsWithin name startLine
      (cursor.rest.length + 1) [] 1 cursor
    (cursor, some command)
  else (cursor, none)

/-- The loop of `scan`; it ends within the number of bytes left. -/
def scanWithin : (fuel : Nat) → List CmakeCommand → Cursor →
    Result (List CmakeCommand)
  | 0, commands, cursor => { value := commands, warnings := cursor.warnings }
  | fuel + 1, commands, cursor =>
    let cursor := skipIgnorable cursor
    match cursor.rest with
    | [] => { value := commands, warnings := cursor.warnings }
    | character :: _ =>
      if maxCommandsPerFile ≤ commands.length then
        { value := commands
          warnings := (cursor.warn .entryLimitReached
            (text ("cmake: more than " ++ toString maxCommandsPerFile ++
              " commands in one file; remaining commands ignored"))).warnings }
      else if isIdentifierStart character then
        let (cursor, command) := readCommand cursor
        scanWithin fuel (commands ++ command.toList) cursor
      else scanWithin fuel commands (cursor.advance 1)

def scanCmakeCommands (bytes : List UInt8) : Result (List CmakeCommand) :=
  scanWithin (bytes.length + 1) [] { rest := bytes }

end Bomwerk.Cpp
