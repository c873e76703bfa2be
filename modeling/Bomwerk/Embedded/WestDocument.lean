import Bomwerk.Ci.WorkflowDocument
import Bomwerk.Embedded.West

/-!
# Written west manifests

A manifest of defaults, remotes and projects, with its sections and the fields
of its items in any order, every indentation of its own, and any blocks below
the fields.  Nothing here is read off the reader.
-/

namespace Bomwerk.Embedded.West

open Bomwerk.Core Bomwerk.Core.YamlSubset
open Bomwerk.Ci.GithubActions (IsPlainScalar IsBlockHeader)

/-! ## Fields -/

/-- A value on the line of its key. -/
inductive Scalar
  | plain (text : List Char)
  | quoted (quote : Char) (text : List Char)
  | flowSequence (interior : List Char)
  | flowMapping (interior : List Char)
  deriving DecidableEq, Repr

namespace Scalar

def text : Scalar → List Char
  | plain text => text
  | quoted quote text => quote :: (text ++ [quote])
  | flowSequence interior => '[' :: (interior ++ [']'])
  | flowMapping interior => '\x7b' :: (interior ++ ['\x7d'])

/-- The text of a flow collection is what stands between its brackets. -/
def value : Scalar → List Char
  | plain text => text
  | quoted _ text => text
  | flowSequence interior => trimmed interior
  | flowMapping interior => trimmed interior

/-- Quoted texts are written without escapes. -/
def IsWritten : Scalar → Prop
  | plain text => IsPlainScalar text
  | quoted quote text => isQuote quote = true ∧ '\n' ∉ text ∧ quote ∉ text ∧
      (quote = '"' → '\\' ∉ text)
  | flowSequence interior => '\n' ∉ interior ∧ '#' ∉ interior
  | flowMapping interior => '\n' ∉ interior ∧ '#' ∉ interior

end Scalar

/-- What stands behind the colon of a field, and the lines below it. -/
inductive FieldValue
  | scalar (gap : Nat) (value : Scalar)
  | block (nested : List (List Char))
  | blockScalar (gap : Nat) (header : List Char) (body : List (List Char))
  deriving DecidableEq, Repr

namespace FieldValue

def text : FieldValue → List Char
  | scalar gap value => List.replicate (gap + 1) ' ' ++ value.text
  | block _ => []
  | blockScalar gap header _ => List.replicate (gap + 1) ' ' ++ header

def below : FieldValue → List (List Char)
  | scalar _ _ => []
  | block nested => nested
  | blockScalar _ _ body => body

/-- The text of a field; that of a block is empty. -/
def content : FieldValue → List Char
  | scalar _ value => value.value
  | block _ => []
  | blockScalar _ _ _ => []

def isBlock : FieldValue → Bool
  | block _ => true
  | _ => false

def isBlockScalar : FieldValue → Bool
  | blockScalar _ _ _ => true
  | _ => false

end FieldValue

/-- A line of the block below a key at `column`: deeper than the key, or an
item of a sequence that stands at its column. -/
def IsNestedLine (column : Nat) (line : List Char) : Prop :=
  '\n' ∉ line ∧ (trimmed line = [] ∨ column < leadingSpaceCount line ∨
      ∃ rest, line = List.replicate column ' ' ++ '-' :: rest ∧
        (rest = [] ∨ rest.head? = some ' '))

/-- A line of a block scalar below a key at `column`. -/
def IsBodyLine (column : Nat) (line : List Char) : Prop :=
  '\n' ∉ line ∧ (trimmed line = [] ∨ column < leadingSpaceCount line)

structure Field where
  key : List Char
  value : FieldValue
  deriving DecidableEq, Repr

/-- The keys with a meaning in some section. -/
def readKeys : List (List Char) :=
  [nameKey, urlKey, urlBaseKey, remoteKey, repoPathKey, revisionKey, pathKey,
    importKey]

structure IsFieldKey (key : List Char) : Prop where
  spellable : IsSpellable none key
  colon : ':' ∉ key
  one_line : '\n' ∉ key
  start : ∀ c ∈ key.head?, opensMapping c = true ∧ c ≠ '\x7b'

namespace Field

variable (field : Field)

def text : List Char := field.key ++ ':' :: field.value.text

/-- The lines of a field, behind what leads to its key. -/
def lines (lead : List Char) : List (List Char) :=
  (lead ++ field.text) :: field.value.below

/-- A field of a mapping at `column`. -/
structure IsWritten (column : Nat) : Prop where
  key : IsFieldKey field.key
  scalar : ∀ gap value, field.value = .scalar gap value → value.IsWritten
  block : ∀ nested, field.value = .block nested →
    ∀ line ∈ nested, IsNestedLine column line
  blockScalar : ∀ gap header body, field.value = .blockScalar gap header body →
      IsBlockHeader header ∧ field.key ∉ readKeys ∧
        ∀ line ∈ body, IsBodyLine column line

def pullsProjects : Bool :=
  field.value.isBlock ∨
    (field.value.content ≠ "false".toList ∧
      field.value.content ≠ "False".toList ∧ field.value.content ≠ [])

end Field

def contentOf (key : List Char) (fields : List Field) : List Char :=
  ((fields.find? fun field => field.key = key).map
    fun field => field.value.content).getD []

/-- An item of a sequence; its first field may stand on the line of the
marker. -/
structure Item where
  lone : Bool
  gap : Nat
  fields : List Field
  deriving DecidableEq, Repr

namespace Item

variable (marker : Nat) (item : Item)

def column : Nat :=
  if item.lone then marker + 1 + item.gap else marker + 2 + item.gap

/-- What leads to the field on the line of the marker. -/
def lead : List Char :=
  List.replicate marker ' ' ++ '-' :: List.replicate (item.gap + 1) ' '

def lines : List (List Char) :=
  if item.lone then
    (List.replicate marker ' ' ++ ['-']) :: item.fields.flatMap
        (Field.lines · (List.replicate (item.column marker) ' '))
  else
    match item.fields with
    | [] => []
    | first :: fields =>
      first.lines (item.lead marker) ++ fields.flatMap
          (Field.lines · (List.replicate (item.column marker) ' '))

structure IsWritten : Prop where
  fields_ne_nil : item.fields ≠ []
  keys_nodup : (item.fields.map Field.key).Nodup
  fields : ∀ field ∈ item.fields, field.IsWritten (item.column marker)

/-- The last field of the item, block scalars apart, has no value on its
line. -/
def endsInBlock : Bool :=
  (item.fields.filter fun field => !field.value.isBlockScalar).getLast?.any
    fun field => field.value.isBlock

def remote : Remote where
  name := contentOf nameKey item.fields
  urlBase := contentOf urlBaseKey item.fields

def project : Project where
  name := contentOf nameKey item.fields
  url := contentOf urlKey item.fields
  remote := contentOf remoteKey item.fields
  repoPath := contentOf repoPathKey item.fields
  revision := contentOf revisionKey item.fields
  path := contentOf pathKey item.fields
  imports :=
    (item.fields.find? fun field => field.key = importKey).any
      Field.pullsProjects

end Item

/-! ## Documents -/

inductive Section
  | defaults (step : Nat) (fields : List Field)
  | remotes (step : Nat) (items : List Item)
  | projects (step : Nat) (items : List Item)
  deriving DecidableEq, Repr

namespace Section

def key : Section → List Char
  | defaults _ _ => defaultsKey
  | remotes _ _ => remotesKey
  | projects _ _ => projectsKey

/-- The column of the fields or of the markers in a section at `column`. -/
def inner (column : Nat) : Section → Nat
  | defaults step _ => column + 1 + step
  | remotes step _ => column + step
  | projects step _ => column + step

def below (column : Nat) : Section → List (List Char)
  | defaults step fields =>
    fields.flatMap
      (Field.lines · (List.replicate (column + 1 + step) ' '))
  | remotes step items => items.flatMap (Item.lines (column + step))
  | projects step items => items.flatMap (Item.lines (column + step))

def lines (column : Nat) (manifestSection : Section) : List (List Char) :=
  (List.replicate column ' ' ++ (manifestSection.key ++ [':'])) ::
    manifestSection.below column

/-- A remote has a name. -/
def IsWritten (column : Nat) : Section → Prop
  | defaults step fields => (fields.map Field.key).Nodup ∧
      ∀ field ∈ fields, field.IsWritten (column + 1 + step)
  | remotes step items => ∀ item ∈ items,
      item.IsWritten (column + step) ∧ item.remote.name ≠ []
  | projects step items => ∀ item ∈ items, item.IsWritten (column + step)

def defaultFields : Section → List Field
  | defaults _ fields => fields
  | _ => []

def remoteItems : Section → List Item
  | remotes _ items => items
  | _ => []

def projectItems : Section → List Item
  | projects _ items => items
  | _ => []

end Section

/-- A manifest as it is written. -/
structure Document where
  column : Nat
  step : Nat
  sections : List Section
  keys_nodup : (sections.map Section.key).Nodup
  isWritten : ∀ manifestSection ∈ sections,
    manifestSection.IsWritten (column + 1 + step)

namespace Document

variable (document : Document)

def sectionColumn : Nat := document.column + 1 + document.step

def lines : List (List Char) :=
  (List.replicate document.column ' ' ++ (manifestKey ++ [':'])) ::
    document.sections.flatMap (Section.lines document.sectionColumn)

def text : List Char := ['\n'].intercalate document.lines

def manifest : Manifest where
  found := true
  defaultRemote :=
    contentOf remoteKey (document.sections.flatMap Section.defaultFields)
  defaultRevision :=
    contentOf revisionKey (document.sections.flatMap Section.defaultFields)
  remotes :=
    (document.sections.flatMap Section.remoteItems).map Item.remote
  projects :=
    (document.sections.flatMap Section.projectItems).map Item.project

/-- The remote of a project: its own, else the default one, else the only
one. -/
def chosenRemote (project : Project) : Option Remote :=
  let named (name : List Char) :=
    document.manifest.remotes.find? fun remote => remote.name = name
  if project.remote ≠ [] then named project.remote
  else if document.manifest.defaultRemote ≠ [] then
    named document.manifest.defaultRemote
  else
    match document.manifest.remotes with
    | [remote] => some remote
    | _ => none

def cloneUrl (project : Project) : List Char :=
  if project.url ≠ [] then project.url
  else
    match document.chosenRemote project with
    | none => []
    | some remote =>
      if remote.urlBase = [] then []
      else
        remote.urlBase.rdropWhile (· = '/') ++ '/' ::
          (if project.repoPath ≠ [] then project.repoPath else project.name)

/-- The revision of a project: its own, else the default one. -/
def revision (project : Project) : List Char :=
  if project.revision ≠ [] then project.revision
  else document.manifest.defaultRevision

/-- The document is read as what it says, and its projects resolve by that. -/
structure IsRead : Prop where
  manifest : (readManifest document.text).1 = document.manifest
  url : ∀ project ∈ document.manifest.projects,
    resolveUrl (readManifest document.text).1 project =
      document.cloneUrl project
  revision : ∀ project ∈ document.manifest.projects,
    resolveRevision (readManifest document.text).1 project =
      document.revision project

end Document

/-- Behind an item that ends in a block the next one stands by itself or is not
indented deeper. -/
def Item.Follows (marker : Nat) (previous next : Item) : Prop :=
  previous.endsInBlock = true →
    next.lone = true ∨ next.column marker ≤ previous.column marker

/-- The items of every section are aligned behind blocks. -/
def Section.IsAligned (column : Nat) : Section → Prop
  | .defaults _ _ => True
  | .remotes step items => items.IsChain (Item.Follows (column + step))
  | .projects step items => items.IsChain (Item.Follows (column + step))

def Document.IsAligned (document : Document) : Prop :=
  ∀ manifestSection ∈ document.sections,
    manifestSection.IsAligned document.sectionColumn

end Bomwerk.Embedded.West

/-!
## The lines of a field

What the reader makes of the line of a field, behind the marker of its item or
in its own column.
-/

namespace Bomwerk.Embedded.West

open Bomwerk.Core Bomwerk.Core.YamlSubset
open Bomwerk.Ci.GithubActions (IsPlainScalar IsBlockHeader plainIndicators)

/-- Behind `previous`, no `#` of the text stands behind a blank. -/
def HasNoComment (previous : Option Char) (text : List Char) : Prop :=
  ∀ before after, text = before ++ '#' :: after →
    ∃ c ∈ before.getLast?.or previous, isAsciiBlank c = false

section Comments

variable {previous : Option Char} {c : Char} {text : List Char}

theorem HasNoComment.tail (h : HasNoComment previous (c :: text)) :
    HasNoComment (some c) text := by
  intro before after htext
  obtain ⟨d, hd, hblank⟩ := h (c :: before) after (by rw [htext]; rfl)
  refine ⟨d, ?_, hblank⟩
  cases before with
  | nil => simpa using hd
  | cons e before => simpa [List.getLast?_cons] using hd

theorem HasNoComment.head (h : HasNoComment previous (c :: text)) :
    startsComment previous c text = false := by
  rw [YamlSubset.startsComment, decide_eq_false_iff_not]
  rintro ⟨rfl, hprevious⟩
  obtain ⟨d, hd, hblank⟩ := h [] text rfl
  have hd : previous = some d := by simpa using hd
  rcases hprevious with hnone | hspace | htab
  · rw [hd] at hnone
    cases hnone
  · obtain rfl := Option.some.inj (hd.symm.trans hspace)
    exact absurd hblank (by decide)
  · obtain rfl := Option.some.inj (hd.symm.trans htab)
    exact absurd hblank (by decide)

/-- The scan for a comment keeps such a text, whatever its quotes do. -/
theorem HasNoComment.scan_eq (openQuote : Option Char)
    (h : HasNoComment previous text) :
    (splitOutsideQuotes startsComment openQuote previous text).1 = text := by
  fun_induction splitOutsideQuotes startsComment openQuote previous text with
  | case1 => rfl
  | case2 => rfl
  | case3 =>
    rename_i hsplit ih
    rw [hsplit] at ih
    rw [← ih h.tail.tail]
  | case4 =>
    rename_i hsplit ih
    rw [hsplit] at ih
    rw [← ih h.tail]
  | case5 =>
    rename_i hsplit ih
    rw [hsplit] at ih
    rw [← ih h.tail]
  | case6 previous _ _ _ hstop =>
    rw [h.head] at hstop
    cases hstop
  | case7 =>
    rename_i hsplit ih
    rw [hsplit] at ih
    rw [← ih h.tail]

theorem hasNoComment_of_notMem (h : '#' ∉ text) :
    HasNoComment previous text := by
  rintro before after rfl
  exact absurd (List.mem_append_right _ List.mem_cons_self) h

end Comments

/-! ## Values -/

namespace Scalar

variable {scalar : Scalar}

theorem isAsciiBlank_of_isQuote {quote : Char} (h : isQuote quote = true) :
    isAsciiBlank quote = false := by
  rw [isQuote, decide_eq_true_eq] at h
  rcases h with rfl | rfl <;> rfl

theorem isSolid_text (h : scalar.IsWritten) : IsSolid scalar.text := by
  have hends : ∀ (first last : Char) (text : List Char),
      isAsciiBlank first = false → isAsciiBlank last = false →
        IsSolid (first :: (text ++ [last])) := by
    intro first last text hfirst hlast
    exact ⟨⟨first, rfl, hfirst⟩,
      ⟨last, List.getLast?_eq_some_iff.mpr ⟨first :: text, rfl⟩, hlast⟩⟩
  cases scalar with
  | plain text =>
    have hplain : IsPlainScalar text := h
    obtain ⟨c, rest, rfl, -, hsolid, -⟩ := hplain.first
    exact ⟨⟨c, rfl, hsolid⟩, hplain.last⟩
  | quoted quote text =>
    have hquote := isAsciiBlank_of_isQuote h.1
    exact hends quote quote text hquote hquote
  | flowSequence interior => exact hends _ _ interior rfl rfl
  | flowMapping interior => exact hends _ _ interior rfl rfl

/-- The scan for a comment keeps a value. -/
theorem splitOutsideQuotes_text (h : scalar.IsWritten)
    (previous : Option Char) :
    (splitOutsideQuotes startsComment none previous scalar.text).1 =
      scalar.text := by
  cases scalar with
  | plain text =>
    have hplain : IsPlainScalar text := h
    apply HasNoComment.scan_eq
    intro before after htext
    obtain ⟨c, hc, hblank⟩ := hplain.hash before after htext
    exact ⟨c, by rw [Option.mem_def.mp hc]; rfl, hblank⟩
  | quoted quote text =>
    obtain ⟨hquote, -, hclose, hslash⟩ := h
    have hbody : ∀ c ∈ text, c ≠ quote ∧ (quote = '"' → c ≠ '\\') := by
      intro c hc
      exact ⟨fun heq => hclose (heq ▸ hc), fun hq heq => hslash hq (heq ▸ hc)⟩
    have hscan := @splitOutsideQuotes_quoted startsComment quote text hquote
      hbody previous []
    rw [Scalar.text, hscan]
    rfl
  | flowSequence interior =>
    apply HasNoComment.scan_eq
    exact hasNoComment_of_notMem (by simpa [Scalar.text] using h.2)
  | flowMapping interior =>
    apply HasNoComment.scan_eq
    exact hasNoComment_of_notMem (by simpa [Scalar.text] using h.2)

/-- A value opens nothing on its line. -/
theorem head_text (h : scalar.IsWritten) :
    opensBlockScalar scalar.text = false ∧
      isUnsupportedItemValue scalar.text = false := by
  cases scalar with
  | plain text =>
    have hplain : IsPlainScalar text := h
    obtain ⟨c, rest, rfl, hindicator, -⟩ := hplain.first
    simp only [plainIndicators, List.mem_cons, not_or] at hindicator
    simp [Scalar.text, opensBlockScalar, isUnsupportedItemValue,
      isAnchorAliasTag, hindicator]
  | quoted quote text =>
    have hquote := h.1
    rw [isQuote, decide_eq_true_eq] at hquote
    rcases hquote with rfl | rfl <;>
      simp [Scalar.text, opensBlockScalar, isUnsupportedItemValue,
        isAnchorAliasTag]
  | flowSequence interior =>
    simp [Scalar.text, opensBlockScalar, isUnsupportedItemValue,
      isFlowSequence, List.getLast?_cons]
  | flowMapping interior =>
    simp [Scalar.text, opensBlockScalar, isUnsupportedItemValue,
      isAnchorAliasTag]

theorem value_sequenceNodeOf (h : scalar.IsWritten) (starts : Bool)
    (column : Nat) (key : List Char) :
    (sequenceNodeOf starts column key scalar.text).value = scalar.value := by
  cases scalar with
  | plain text =>
    have hplain : IsPlainScalar text := h
    obtain ⟨c, rest, rfl, hindicator, -⟩ := hplain.first
    simp only [plainIndicators, List.mem_cons, not_or] at hindicator
    cases rest with
    | nil => simp [sequenceNodeOf, Scalar.text, Scalar.value, isFlowMapping,
        isFlowSequence, YamlSubset.unquoted]
    | cons d rest =>
      simp [sequenceNodeOf, Scalar.text, Scalar.value, isFlowMapping,
        isFlowSequence, YamlSubset.unquoted, isQuote, hindicator]
  | quoted quote text =>
    have hquote := h.1
    have hunquoted :
        YamlSubset.unquoted (quote :: (text ++ [quote])) = text := by
      cases text with
      | nil => simp [YamlSubset.unquoted, hquote]
      | cons c text =>
        have hlast : (c :: (text ++ [quote])).getLast? = some quote :=
          List.getLast?_eq_some_iff.mpr ⟨c :: text, rfl⟩
        have hdrop : (c :: (text ++ [quote])).dropLast = c :: text := by
          rw [← List.cons_append]
          exact List.dropLast_concat
        simp only [List.cons_append, YamlSubset.unquoted, hquote, hlast,
          hdrop, and_self, if_true]
    have hbrackets : quote ≠ '\x7b' ∧ quote ≠ '[' := by
      rw [isQuote, decide_eq_true_eq] at hquote
      rcases hquote with rfl | rfl <;> decide
    simp [sequenceNodeOf, Scalar.text, Scalar.value, isFlowMapping,
      isFlowSequence, hunquoted, hbrackets]
  | flowSequence interior =>
    simp [sequenceNodeOf, Scalar.text, Scalar.value, isFlowSequence,
      List.getLast?_cons]
  | flowMapping interior =>
    simp [sequenceNodeOf, Scalar.text, Scalar.value, isFlowMapping,
      List.getLast?_cons]

end Scalar

/-! ## Fields -/

theorem isQuote_and_startsComment {c : Char} (hc : c = '-' ∨ c = ' ' ∨ c = ':') :
    isQuote c = false ∧
      ∀ previous rest, startsComment previous c rest = false := by
  rcases hc with rfl | rfl | rfl <;> simp [isQuote, startsComment]

theorem solid_header {header : List Char} (h : IsBlockHeader header) :
    IsSolid header ∧ '#' ∉ header ∧ opensBlockScalar header = true ∧
      '\n' ∉ header := by
  obtain ⟨style, hstyle, chomping, hchomping, digits, hdigits, hheader⟩ := h
  have hdigit : ∀ c ∈ digits, isAsciiBlank c = false ∧ c ≠ '#' := by
    simp only [List.mem_cons, List.not_mem_nil, or_false] at hdigits
    rcases hdigits with rfl | rfl | rfl | rfl | rfl | rfl | rfl | rfl | rfl |
      rfl <;> simp [isAsciiBlank]
  have hchomp : ∀ c ∈ chomping, isAsciiBlank c = false ∧ c ≠ '#' := by
    simp only [List.mem_cons, List.not_mem_nil, or_false] at hchomping
    rcases hchomping with rfl | rfl | rfl <;> simp [isAsciiBlank]
  have hstyle' : isAsciiBlank style = false ∧ style ≠ '#' := by
    simp only [List.mem_cons, List.not_mem_nil, or_false] at hstyle
    rcases hstyle with rfl | rfl <;> simp [isAsciiBlank]
  have hall : ∀ c ∈ header, isAsciiBlank c = false ∧ c ≠ '#' := by
    intro c hc
    rcases hheader with rfl | rfl
    · rcases List.mem_cons.mp hc with rfl | hc
      · exact hstyle'
      · rcases List.mem_append.mp hc with hc | hc
        · exact hchomp c hc
        · exact hdigit c hc
    · rcases List.mem_cons.mp hc with rfl | hc
      · exact hstyle'
      · rcases List.mem_append.mp hc with hc | hc
        · exact hdigit c hc
        · exact hchomp c hc
  have hhead : header.head? = some style := by
    rcases hheader with rfl | rfl <;> rfl
  have hne : header ≠ [] := by
    rintro rfl
    cases hhead
  refine ⟨isSolid_of_forall hne fun c hc => (hall c hc).1,
    fun hmem => (hall _ hmem).2 rfl, ?_, fun hmem => ?_⟩
  · simp only [List.mem_cons, List.not_mem_nil, or_false] at hstyle
    rcases hstyle with rfl | rfl <;> simp [opensBlockScalar, hhead]
  · exact absurd (hall _ hmem).1 (by decide)

namespace FieldValue

/-- The value without the spaces ahead of it. -/
def inline : FieldValue → List Char
  | scalar _ value => value.text
  | block _ => []
  | blockScalar _ header _ => header

end FieldValue

namespace Field

variable {field : Field} {column : Nat}

theorem value_text (h : field.IsWritten column) :
    (field.value.text = [] ∧ field.value.inline = []) ∨
      ∃ gap, field.value.text =
        List.replicate (gap + 1) ' ' ++ field.value.inline ∧
          IsSolid field.value.inline := by
  rcases hvalue : field.value with ⟨gap, value⟩ | ⟨nested⟩ |
    ⟨gap, header, body⟩
  · exact .inr ⟨gap, rfl, value.isSolid_text (h.scalar gap value hvalue)⟩
  · exact .inl ⟨rfl, rfl⟩
  · exact .inr ⟨gap, rfl, (solid_header (h.blockScalar _ _ _ hvalue).1).1⟩

theorem trimmed_value (h : field.IsWritten column) :
    trimmed field.value.text = field.value.inline := by
  rcases value_text h with ⟨htext, hinline⟩ | ⟨gap, htext, hsolid⟩
  · rw [htext, hinline]
    rfl
  · rw [htext, trimmed_replicate_append hsolid]

theorem isSolid_key (h : field.IsWritten column) : IsSolid field.key :=
  h.key.spellable.isSolid rfl

theorem isSolid_text (h : field.IsWritten column) : IsSolid field.text := by
  have hkey := (isSolid_key h).head
  have hcolon : IsSolid [':'] := ⟨⟨':', rfl, rfl⟩, ⟨':', rfl, rfl⟩⟩
  rcases value_text h with ⟨htext, -⟩ | ⟨gap, htext, hsolid⟩
  · rw [text, htext]
    exact hcolon.append hkey
  · rw [text, htext]
    have hrest : field.key ++ ':' :: (List.replicate (gap + 1) ' ' ++
        field.value.inline) =
        (field.key ++ ':' :: List.replicate (gap + 1) ' ') ++
          field.value.inline := by
      simp
    rw [hrest]
    apply hsolid.append
    obtain ⟨c, hc, hblank⟩ := hkey
    exact ⟨c, by rw [List.head?_append, Option.mem_def.mp hc]; rfl, hblank⟩

theorem splitKey?_text (h : field.IsWritten column) :
    splitKey? field.text = some (field.key, field.value.text) := by
  apply IsSpellable.splitKey?_eq h.key.spellable fun _ => h.key.colon
  rcases value_text h with ⟨htext, -⟩ | ⟨gap, htext, -⟩
  · exact .inl htext
  · exact .inr (by rw [htext]; rfl)

/-- Nothing of the line of a field is a comment. -/
theorem withoutComment_text (h : field.IsWritten column) {lead : List Char}
    (hlead : ∀ c ∈ lead, c = '-' ∨ c = ' ') :
    withoutComment (lead ++ field.text) = lead ++ field.text := by
  obtain ⟨spaces, htext, hspaces⟩ : ∃ spaces, field.value.text =
      spaces ++ field.value.inline ∧ ∀ c ∈ spaces, c = ' ' := by
    rcases value_text h with ⟨htext, hinline⟩ | ⟨gap, htext, -⟩
    · exact ⟨[], by rw [htext, hinline]; rfl, by simp⟩
    · exact ⟨_, htext, fun c hc => List.eq_of_mem_replicate hc⟩
  have hinline : ∀ previous, (splitOutsideQuotes startsComment none previous
      field.value.inline).1 = field.value.inline := by
    intro previous
    rcases hvalue : field.value with ⟨gap, value⟩ | ⟨nested⟩ |
      ⟨gap, header, body⟩
    · exact Scalar.splitOutsideQuotes_text (h.scalar gap value hvalue) previous
    · rfl
    · exact (hasNoComment_of_notMem
        (solid_header (h.blockScalar _ _ _ hvalue).1).2.1).scan_eq none
  have hfront : ∀ c ∈ lead ++ (field.key ++ ':' :: spaces), isQuote c = false ∧
        ∀ previous rest, startsComment previous c rest = false := by
    intro c hc
    rcases List.mem_append.mp hc with hc | hc
    · apply isQuote_and_startsComment
      rcases hlead c hc with rfl | rfl <;> simp
    rcases List.mem_append.mp hc with hc | hc
    · obtain ⟨hquote, -, hhash⟩ := h.key.spellable.plain c hc
      exact ⟨hquote, fun previous rest => by simp [startsComment, hhash]⟩
    · apply isQuote_and_startsComment
      rcases List.mem_cons.mp hc with rfl | hc
      · simp
      · simp [hspaces c hc]
  have hline : lead ++ field.text =
      (lead ++ (field.key ++ ':' :: spaces)) ++ field.value.inline := by
    rw [text, htext]
    simp
  rw [withoutComment, hline,
    splitOutsideQuotes_append_of_forall hfront none _ _ rfl, hinline]

theorem readKeyed_text (h : field.IsWritten column) (starts : Bool) :
    readKeyed starts column field.text =
      match field.value with
      | .scalar _ value => (none, .node
          (sequenceNodeOf starts column field.key value.text))
      | .block _ => (none, .node (sequenceNodeOf starts column field.key []))
      | .blockScalar _ _ _ => (some column, skipLine starts column) := by
  obtain ⟨c, hc, -⟩ := (isSolid_key h).head
  obtain ⟨hmapping, -⟩ := h.key.start c hc
  obtain ⟨rest, hrest⟩ := List.head?_eq_some_iff.mp hc
  have hstart : isUnsupportedStart field.text = false := by
    rw [text, hrest, List.cons_append]
    exact isUnsupportedStart_cons hmapping _
  have hkey : YamlSubset.unquoted (trimmed field.key) = field.key := by
    rw [(isSolid_key h).trimmed_eq]
    exact h.key.spellable.unquoted_spelled
  rw [readKeyed, hstart, splitKey?_text h]
  simp only [Bool.false_eq_true, if_false, hkey, h.key.spellable.ne_nil,
    trimmed_value h]
  rcases hvalue : field.value with ⟨gap, value⟩ | ⟨nested⟩ |
    ⟨gap, header, body⟩
  · obtain ⟨hblock, hsupported⟩ :=
      Scalar.head_text (h.scalar gap value hvalue)
    simp [FieldValue.inline, hblock, hsupported]
  · simp [FieldValue.inline, opensBlockScalar, isUnsupportedItemValue]
  · have hopens := (solid_header (h.blockScalar _ _ _ hvalue).1).2.2.1
    simp [FieldValue.inline, hopens]

end Field

end Bomwerk.Embedded.West
