import Bomwerk.Cpp.CmakeScanner

/-!
# Renderings of CMake commands

The texts that stand for a list of commands: every form of an argument, and
everything that may separate arguments.
-/

namespace Bomwerk.Cpp

/-- A character of a value, with a backslash in front of it or without. -/
structure Spelled where
  character : UInt8
  escaped : Bool := false

def Spelled.bytes (spelled : Spelled) : List UInt8 :=
  if spelled.escaped then ['\\'.toUInt8, spelled.character]
  else [spelled.character]

def spelledValue (spelling : List Spelled) : List UInt8 :=
  spelling.map Spelled.character

def spelledBytes (spelling : List Spelled) : List UInt8 :=
  spelling.flatMap Spelled.bytes

/-- All of these characters have a backslash in front of them. -/
def Escapes (special : List UInt8) (spelling : List Spelled) : Prop :=
  ∀ spelled ∈ spelling, spelled.character ∈ special → spelled.escaped = true

inductive ArgumentForm where
  | quoted (spelling : List Spelled)
  | bracketed (level : Nat) (body : List UInt8)
  | bare (spelling : List Spelled)

namespace ArgumentForm

def value : ArgumentForm → List UInt8
  | quoted spelling => spelledValue spelling
  | bracketed _ body => body
  | bare spelling => spelledValue spelling

def bracketOpener (level : Nat) : List UInt8 :=
  '['.toUInt8 :: (List.replicate level '='.toUInt8 ++ ['['.toUInt8])

def bytes : ArgumentForm → List UInt8
  | quoted spelling => '"'.toUInt8 :: (spelledBytes spelling ++ ['"'.toUInt8])
  | bracketed level body => bracketOpener level ++ (body ++ bracketCloser level)
  | bare spelling => spelledBytes spelling

end ArgumentForm

/-- The closer does not occur in front of the end. -/
def ClosesAtEnd (level : Nat) (body : List UInt8) : Prop :=
  ∀ before after, body ++ bracketCloser level =
    before ++ (bracketCloser level ++ after) → after = []

/-- The special characters of a bare argument, and those of its front. -/
def bareSpecial : List UInt8 := text " \t\r\n()\"\\"

def frontSpecial : List UInt8 := text "#["

def ArgumentForm.IsValid : ArgumentForm → Prop
  | .quoted spelling => Escapes (text "\"\\") spelling
  | .bracketed level body =>
    ClosesAtEnd level body ∧ body.head? ≠ some '\n'.toUInt8
  | .bare spelling =>
    spelling ≠ [] ∧ Escapes bareSpecial spelling ∧
      Escapes frontSpecial (spelling.take 1)

inductive Blank where
  | space (character : UInt8)
  | lineComment (body : List UInt8)
  | bracketComment (level : Nat) (body : List UInt8)

def Blank.bytes : Blank → List UInt8
  | .space character => [character]
  | .lineComment body => '#'.toUInt8 :: (body ++ ['\n'.toUInt8])
  | .bracketComment level body =>
    '#'.toUInt8 ::
      (ArgumentForm.bracketOpener level ++ (body ++ bracketCloser level))

def StartsBracket (bytes : List UInt8) : Prop :=
  ∃ level rest, bytes = ArgumentForm.bracketOpener level ++ rest

/-- The text of a comment up to the end of its line. -/
def IsLineComment (body : List UInt8) : Prop :=
  '\n'.toUInt8 ∉ body ∧ ¬StartsBracket body

def Blank.IsValid : Blank → Prop
  | .space character => isSpace character = true
  | .lineComment body => IsLineComment body
  | .bracketComment level body => ClosesAtEnd level body

def blankBytes (blanks : List Blank) : List UInt8 := blanks.flatMap Blank.bytes

/-- What stands between the parentheses of a command. -/
inductive Item where
  | blank (separator : Blank)
  | argument (form : ArgumentForm)
  | opening
  | closing

namespace Item

def bytes : Item → List UInt8
  | blank separator => separator.bytes
  | argument form => form.bytes
  | opening => ['('.toUInt8]
  | closing => [')'.toUInt8]

def IsValid : Item → Prop
  | blank separator => separator.IsValid
  | argument form => form.IsValid ∧ form.value.length ≤ maxArgumentBytes
  | opening => True
  | closing => True

def value? : Item → Option (List UInt8)
  | argument form => some form.value
  | _ => none

end Item

def itemBytes (items : List Item) : List UInt8 := items.flatMap Item.bytes

def values (items : List Item) : List (List UInt8) :=
  items.filterMap Item.value?

/-- The parentheses inside a command are balanced and not too deep. -/
def Balanced : Nat → List Item → Prop
  | depth, [] => depth = 0
  | depth, .opening :: items =>
    depth + 2 ≤ maxParenDepth ∧ Balanced (depth + 1) items
  | depth, .closing :: items => 0 < depth ∧ Balanced (depth - 1) items
  | depth, _ :: items => Balanced depth items

/-- Something separates an argument from the next one. -/
def Separated : List Item → Prop
  | .argument _ :: .argument _ :: _ => False
  | _ :: items => Separated items
  | [] => True

def Blank.isComment : Blank → Bool
  | .space _ => false
  | _ => true

/-- No comment stands directly behind a bare argument. -/
def CommentsApart : List Item → Prop
  | .argument (.bare _) :: .blank separator :: items =>
    separator.isComment = false ∧ CommentsApart items
  | _ :: items => CommentsApart items
  | [] => True

structure CommandForm where
  name : List UInt8
  /-- What stands between the name and the parenthesis. -/
  gap : List Blank := []
  items : List Item

namespace CommandForm

def bytes (command : CommandForm) : List UInt8 :=
  command.name ++ (blankBytes command.gap ++
    ('('.toUInt8 :: (itemBytes command.items ++ [')'.toUInt8])))

structure IsValid (command : CommandForm) : Prop where
  name_start : ∃ first rest, command.name = first :: rest ∧
    isIdentifierStart first = true
  name_chars : ∀ character ∈ command.name, isIdentifierChar character = true
  gap : ∀ blank ∈ command.gap, blank.IsValid
  items : ∀ item ∈ command.items, item.IsValid
  balanced : Balanced 0 command.items
  separated : Separated command.items
  arguments_le : (values command.items).length ≤ maxArgumentsPerCommand

end CommandForm

structure FileForm where
  /-- The commands, each with what stands in front of it. -/
  commands : List (List Blank × CommandForm)
  tail : List Blank := []
  /-- A comment that ends with the file. -/
  lastComment : Option (List UInt8) := none

namespace FileForm

def lastBytes (file : FileForm) : List UInt8 :=
  match file.lastComment with
  | none => []
  | some body => '#'.toUInt8 :: body

def commandBytes (commands : List (List Blank × CommandForm)) : List UInt8 :=
  commands.flatMap fun (blanks, command) => blankBytes blanks ++ command.bytes

def bytes (file : FileForm) : List UInt8 :=
  commandBytes file.commands ++ (blankBytes file.tail ++ file.lastBytes)

structure IsValid (file : FileForm) : Prop where
  blanks : ∀ entry ∈ file.commands, ∀ blank ∈ entry.1, blank.IsValid
  commands : ∀ entry ∈ file.commands, entry.2.IsValid
  tail : ∀ blank ∈ file.tail, blank.IsValid
  lastComment : ∀ body, file.lastComment = some body → IsLineComment body
  commands_le : file.commands.length ≤ maxCommandsPerFile

/-- The commands that a text stands for, behind the bytes in front of it; the
line of a command is the one that its name is on. -/
def commandsBehind (before : List UInt8) :
    List (List Blank × CommandForm) → List CmakeCommand
  | [] => []
  | (blanks, command) :: commands =>
    { name := command.name
      arguments := values command.items
      line := 1 + (before ++ blankBytes blanks).count '\n'.toUInt8 } ::
    commandsBehind (before ++ (blankBytes blanks ++ command.bytes)) commands

def rendered (file : FileForm) : List CmakeCommand :=
  commandsBehind [] file.commands

end FileForm

end Bomwerk.Cpp
