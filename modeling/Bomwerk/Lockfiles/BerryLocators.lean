import Bomwerk.Core.YamlWriting
import Bomwerk.Lockfiles.UnexhaustedRuns
import Bomwerk.Lockfiles.Yarn

/-!
# Berry locators

The locators that Yarn Berry writes for a package of the npm registry: the
plain one, the plain one with bindings behind the version, and a patch of
either, whose selector holds the inner locator in percent-encoding.  The
splitter takes the whole selector for the version and looks under one patch, so
the plain locator and a single patch of it are read exactly, and no others.
-/

namespace Bomwerk.Lockfiles.Yarn

open Bomwerk.Core Bomwerk.Core.YamlSubset Bomwerk.Support

/-- A character that stands for itself between double quotes on one line. -/
def isPlainCharacter (c : Char) : Bool :=
  c ≠ '"' ∧ c ≠ '\\' ∧ c ≠ '\n'

/-- A package of the npm registry in an exact version; the `@` of a scope
opens its name. -/
structure BerryPackage where
  name : List Char
  version : List Char
  name_ne_nil : name ≠ []
  notMem_tail : '@' ∉ name.tail
  isPlain_name : ∀ c ∈ name, isPlainCharacter c = true
  version_ne_nil : version ≠ []
  isPlain_version : ∀ c ∈ version, isPlainCharacter c = true

inductive BerryLocator
  /-- `name@npm:version`, with what stands behind a `::`. -/
  | npm (bindings? : Option (List Char))
  /-- `name@patch:inner#path`, the inner locator as it is encoded, with what
  stands behind a `::`. -/
  | patch (encoded : List Char) (inner : BerryLocator) (path : List Char)
      (qualifiers? : Option (List Char))

namespace BerryLocator

/-- What stands behind a `::`, with it. -/
def qualified (qualifiers? : Option (List Char)) : List Char :=
  match qualifiers? with
  | none => []
  | some qualifiers => patchQualifierSeparator ++ qualifiers

variable (package : BerryPackage)

def protocol : BerryLocator → List Char
  | npm _ => npmProtocol
  | patch _ _ _ _ => patchProtocol

def selector : BerryLocator → List Char
  | npm bindings? => package.version ++ qualified bindings?
  | patch encoded _ path qualifiers? =>
    encoded ++ '#' :: (path ++ qualified qualifiers?)

def text (locator : BerryLocator) : List Char :=
  package.name ++ '@' :: (locator.protocol ++ ':' :: locator.selector package)

/-- The inner locators are encoded, every patch has a path, and the locator
can stand between quotes. -/
def IsWritten : BerryLocator → Prop
  | npm bindings? => ∀ c ∈ qualified bindings?, isPlainCharacter c = true
  | patch encoded inner path qualifiers? =>
    inner.IsWritten ∧ percentDecodeText encoded = inner.text package ∧
      '#' ∉ encoded ∧ path ≠ [] ∧ path.head? ≠ some ':' ∧
      ∀ c ∈ encoded ++ path ++ qualified qualifiers?, isPlainCharacter c = true

def isPatch : BerryLocator → Bool
  | npm _ => false
  | patch _ _ _ _ => true

/-- The locator of the package alone, or a patch of it. -/
def IsPlainOrPatch : BerryLocator → Prop
  | npm bindings? => bindings? = none
  | patch _ inner _ _ => inner = npm none

end BerryLocator

/-! ## Splitting -/

theorem splitLocatorFrom_append {text : List Char} (htext : '@' ∉ text)
    (name rest : List Char) :
    splitLocatorFrom name (text ++ rest) =
      splitLocatorFrom (name ++ text) rest := by
  induction text generalizing name with
  | nil => simp
  | cons c text ih =>
    rw [List.mem_cons, not_or] at htext
    have hc : c ≠ '@' := Ne.symm htext.1
    have hstep : splitLocatorFrom name (c :: (text ++ rest)) =
        splitLocatorFrom (name ++ [c]) (text ++ rest) := by
      rw [splitLocatorFrom]
      split <;> simp [hc]
    rw [List.cons_append, hstep, ih htext.2, List.append_assoc,
      List.singleton_append]

/-- The first `@` behind the head of a name ends it. -/
theorem splitLocator_append (package : BerryPackage)
    {protocol selector : List Char} (hne : protocol ≠ [])
    (hprotocol : ∀ c ∈ protocol, isProtocolCharacter c = true)
    (hselector : selector ≠ []) :
    splitLocator (package.name ++ '@' :: (protocol ++ ':' :: selector)) =
      some { packageName := package.name, protocol := protocol,
             selector := selector } := by
  obtain ⟨first, rest, hname⟩ := List.exists_cons_of_ne_nil package.name_ne_nil
  have hat : '@' ∉ rest := by
    have hmem := package.notMem_tail
    rwa [hname] at hmem
  have hend : isProtocolCharacter ':' = false := by decide
  have htake : (protocol ++ ':' :: selector).takeWhile isProtocolCharacter =
      protocol := by
    rw [List.takeWhile_append_of_pos hprotocol]
    simp [hend]
  have hdrop : (protocol ++ ':' :: selector).dropWhile isProtocolCharacter =
      ':' :: selector := by
    rw [List.dropWhile_append_of_pos hprotocol]
    simp [hend]
  rw [hname, List.cons_append, splitLocator, splitLocatorFrom_append hat,
    splitLocatorFrom, hdrop, htake]
  simp [hne, hselector]

section Readings

variable {package : BerryPackage} {locator : BerryLocator}

theorem splitLocator_text (hselector : locator.selector package ≠ []) :
    splitLocator (locator.text package) =
      some { packageName := package.name, protocol := locator.protocol,
             selector := locator.selector package } := by
  have hnpm : npmProtocol.all isProtocolCharacter = true := by decide
  have hpatch : patchProtocol.all isProtocolCharacter = true := by decide
  apply splitLocator_append package _ _ hselector
  · cases locator
    · exact (by decide : npmProtocol ≠ [])
    · exact (by decide : patchProtocol ≠ [])
  · cases locator
    · exact List.all_eq_true.mp hnpm
    · exact List.all_eq_true.mp hpatch

theorem selector_ne_nil : locator.selector package ≠ [] := by
  cases locator with
  | npm bindings? =>
    exact List.append_ne_nil_of_left_ne_nil package.version_ne_nil _
  | patch encoded inner path qualifiers? => simp [BerryLocator.selector]

/-- A patch locator is split at its `#`, and the head of its path is the head
of the note. -/
theorem exists_underlyingLocator {encoded : List Char} (hhash : '#' ∉ encoded)
    {c : Char} (hc : c ≠ ':') (path : List Char) :
    ∃ note, underlyingLocator (encoded ++ '#' :: c :: path) =
      (splitLocator (percentDecodeText encoded), c :: note) := by
  have hplain : ∀ d ∈ encoded, decide (d ≠ '#') = true := by
    intro d hd
    rw [decide_eq_true_eq]
    rintro rfl
    exact hhash hd
  have htake : (encoded ++ '#' :: c :: path).takeWhile (· ≠ '#') = encoded := by
    rw [List.takeWhile_append_of_pos hplain]
    simp
  have hdrop : (encoded ++ '#' :: c :: path).dropWhile (· ≠ '#') =
      '#' :: c :: path := by
    rw [List.dropWhile_append_of_pos hplain]
    simp
  have hprefix : patchQualifierSeparator.isPrefixOf (c :: path) = false := by
    simp [patchQualifierSeparator, List.isPrefixOf, Ne.symm hc]
  rw [underlyingLocator, htake, hdrop, List.tail_cons, XmlScan.splitAtFirst,
    hprefix]
  rcases XmlScan.splitAtFirst patchQualifierSeparator path with
    _ | ⟨note, rest⟩
  · exact ⟨path, rfl⟩
  · exact ⟨note, rfl⟩

/-- What is read from a resolution is the package itself: its name, its
version, and a note about the patch if it is patched. -/
def IsExact (package : BerryPackage) (locator : BerryLocator)
    (label : String) (component : Component) : Prop :=
  component.name = String.ofList package.name ∧
    component.version = String.ofList package.version ∧
    if locator.isPatch then
      ∃ note, note ≠ [] ∧ component.evidence =
        [⟨.manifest, label ++ " (patched: " ++ String.ofList note ++ ")",
          .high⟩]
    else component.evidence = [⟨.manifest, label, .high⟩]

theorem isExact_canonicalized_iff {label : String} (component : Component) :
    IsExact package locator label (canonicalized component) ↔
      IsExact package locator label component := by
  rw [canonicalized]
  split_ifs <;> exact Iff.rfl

theorem locatorOutcome_npm (label : String) (version patchNote : List Char) :
    locatorOutcome label
        { packageName := package.name, protocol := npmProtocol,
          selector := version } patchNote =
      .valid (some (npmComponent package.name version
        (if patchNote = [] then label
          else label ++ " (patched: " ++ String.ofList patchNote ++ ")"))) := by
  have hworkspace : npmProtocol ≠ workspaceProtocol := by decide
  have hlocal : localPathProtocols.contains npmProtocol = false := by decide
  simp only [locatorOutcome, hworkspace, hlocal, if_false, ne_eq,
    not_true_eq_false, Bool.false_eq_true]

theorem locatorOutcome_patch (label : String) (selector patchNote : List Char) :
    locatorOutcome label
        { packageName := package.name, protocol := patchProtocol,
          selector := selector } patchNote = .skipped .unsupportedProtocol := by
  have hworkspace : patchProtocol ≠ workspaceProtocol := by decide
  have hlocal : localPathProtocols.contains patchProtocol = false := by decide
  have hnpm : patchProtocol ≠ npmProtocol := by decide
  simp only [locatorOutcome, hworkspace, hlocal, hnpm, if_false, if_true,
    ne_eq, not_false_eq_true, Bool.false_eq_true]

theorem readResolution_npm (label : String) (bindings? : Option (List Char)) :
    readResolution label ((BerryLocator.npm bindings?).text package) =
      .valid (some (npmComponent package.name
        (package.version ++ BerryLocator.qualified bindings?) label)) := by
  have hpatch : npmProtocol ≠ patchProtocol := by decide
  rw [readResolution, splitLocator_text selector_ne_nil]
  simp only [BerryLocator.protocol, hpatch, if_false]
  rw [BerryLocator.selector, locatorOutcome_npm, if_pos rfl]

theorem exists_readResolution_patch {encoded path : List Char}
    {inner : BerryLocator} {qualifiers? : Option (List Char)}
    (h : (BerryLocator.patch encoded inner path qualifiers?).IsWritten package)
    (label : String) :
    ∃ note, note ≠ [] ∧ readResolution label
          ((BerryLocator.patch encoded inner path qualifiers?).text package) =
        locatorOutcome label
          { packageName := package.name, protocol := inner.protocol,
            selector := inner.selector package } note := by
  obtain ⟨-, hdecode, hhash, hpath, hcolon, -⟩ := h
  obtain ⟨c, rest, rfl⟩ := List.exists_cons_of_ne_nil hpath
  have hc : c ≠ ':' := fun heq => hcolon (congrArg some heq)
  obtain ⟨note, hnote⟩ := exists_underlyingLocator hhash hc
    (rest ++ BerryLocator.qualified qualifiers?)
  refine ⟨c :: note, List.cons_ne_nil c note, ?_⟩
  rw [readResolution, splitLocator_text selector_ne_nil]
  simp only [BerryLocator.protocol, if_true, BerryLocator.selector,
    List.cons_append, hnote, hdecode, splitLocator_text selector_ne_nil]

theorem isExact_npmComponent (locator : BerryLocator) (label : String)
    {note : List Char} (hnote : note ≠ [] ↔ locator.isPatch = true) :
    IsExact package locator label (npmComponent package.name package.version
      (if note = [] then label
        else label ++ " (patched: " ++ String.ofList note ++ ")")) := by
  refine ⟨rfl, rfl, ?_⟩
  by_cases hpatch : locator.isPatch = true
  · rw [if_pos hpatch]
    have hne := hnote.mpr hpatch
    exact ⟨note, hne, by rw [if_neg hne]; rfl⟩
  · rw [if_neg hpatch]
    have hempty : note = [] := by
      by_contra hne
      exact hpatch (hnote.mp hne)
    rw [if_pos hempty]
    rfl

theorem not_isExact_bindings (locator : BerryLocator) (label detail : String)
    (bindings : List Char) :
    ¬IsExact package locator label (npmComponent package.name
      (package.version ++ BerryLocator.qualified (some bindings)) detail) := by
  rintro ⟨-, hversion, -⟩
  have htext := congrArg String.toList hversion
  simp [npmComponent, BerryLocator.qualified, patchQualifierSeparator] at htext

/-- A locator is read exactly when it is the plain one or a patch of it. -/
theorem exists_isExact_iff (h : locator.IsWritten package) (label : String) :
    (∃ component, readResolution label (locator.text package) =
        .valid (some component) ∧ IsExact package locator label component) ↔
      locator.IsPlainOrPatch := by
  cases locator with
  | npm bindings? =>
    rw [readResolution_npm]
    cases bindings? with
    | none =>
      have hexact := @isExact_npmComponent package (.npm none) label []
        (by simp [BerryLocator.isPatch])
      rw [if_pos rfl] at hexact
      exact iff_of_true
        ⟨_, by rw [BerryLocator.qualified, List.append_nil], hexact⟩ rfl
    | some bindings =>
      apply iff_of_false
      · rintro ⟨component, hcomponent, hexact⟩
        cases hcomponent
        exact not_isExact_bindings _ _ _ _ hexact
      · exact Option.some_ne_none bindings
  | patch encoded inner path qualifiers? =>
    obtain ⟨note, hnote, hread⟩ := exists_readResolution_patch h label
    rw [hread]
    cases inner with
    | npm bindings? =>
      rw [BerryLocator.protocol, BerryLocator.selector, locatorOutcome_npm]
      cases bindings? with
      | none =>
        have hexact := @isExact_npmComponent package
          (.patch encoded (.npm none) path qualifiers?) label note
          (by simp [BerryLocator.isPatch, hnote])
        exact iff_of_true
          ⟨_, by rw [BerryLocator.qualified, List.append_nil], hexact⟩ rfl
      | some bindings =>
        apply iff_of_false
        · rintro ⟨component, hcomponent, hexact⟩
          cases hcomponent
          exact not_isExact_bindings _ _ _ _ hexact
        · simp [BerryLocator.IsPlainOrPatch]
    | patch encoded' inner' path' qualifiers' =>
      rw [BerryLocator.protocol, locatorOutcome_patch]
      apply iff_of_false
      · rintro ⟨component, hcomponent, -⟩
        cases hcomponent
      · simp [BerryLocator.IsPlainOrPatch]

end Readings

/-! ## Resolutions of a lockfile -/

/-- Whether the loop is in the metadata behind some lines. -/
def metadataBehind : Bool → List LineResult → Bool
  | insideMetadata, [] => insideMetadata
  | insideMetadata, .node node :: lines =>
    metadataBehind
      (if node.indentation = entryKeyIndentation then node.key = metadataKey
        else insideMetadata) lines
  | insideMetadata, _ :: lines => metadataBehind insideMetadata lines

theorem berryEntries_append (label : String) (insideMetadata : Bool)
    (lines more : List LineResult) :
    berryEntries label insideMetadata (lines ++ more) =
      berryEntries label insideMetadata lines ++
        berryEntries label (metadataBehind insideMetadata lines) more := by
  induction lines generalizing insideMetadata with
  | nil => rfl
  | cons line lines ih =>
    cases line with
    | nothing => exact ih insideMetadata
    | unsupported =>
      exact congrArg (List.cons _) (ih insideMetadata)
    | node node =>
      rw [List.cons_append, berryEntries, berryEntries, metadataBehind]
      split_ifs <;> simp [ih]

/-- The resolution field of an entry in a lockfile, between the lines before
and behind it. -/
structure HoldsResolution (text : List Char) (before : List LineResult)
    (node : Node) (after : List LineResult) (value : List Char) : Prop where
  lines : lineResults text = before ++ .node node :: after
  outside : metadataBehind false before = false
  indentation : node.indentation = entryFieldIndentation
  key : node.key = resolutionKey
  value : node.value = value

theorem HoldsResolution.entries_eq {text value : List Char}
    {before after : List LineResult} {node : Node}
    (h : HoldsResolution text before node after value) (label : String) :
    (berryManifest label text).entries = berryEntries label false before ++
        { outcome := readResolution label value } ::
          berryEntries label false after := by
  have hindentation : ¬node.indentation = entryKeyIndentation := by
    rw [h.indentation]
    decide
  rw [berryManifest]
  dsimp only
  rw [h.lines, berryEntries_append, h.outside, berryEntries,
    if_neg hindentation]
  simp [h.indentation, h.key, h.value]

theorem not_throws_skipped (reason : SkipReason) :
    ¬(Reading.Throws { outcome := .skipped reason }) := by
  simp [Reading.Throws]

theorem not_throws_locatorOutcome (label : String) (locator : Locator)
    (patchNote : List Char) :
    ¬(Reading.Throws
      { outcome := locatorOutcome label locator patchNote }) := by
  rw [Reading.Throws, locatorOutcome]
  split_ifs <;> simp

theorem not_throws_readResolution (label : String) (value : List Char) :
    ¬(Reading.Throws { outcome := readResolution label value }) := by
  rw [readResolution]
  split
  · exact not_throws_skipped _
  split_ifs
  · split
    · exact not_throws_skipped _
    · exact not_throws_locatorOutcome label _ _
  · exact not_throws_locatorOutcome label _ _

theorem not_throws_berryEntries (label : String) (insideMetadata : Bool)
    (lines : List LineResult) :
    ∀ reading ∈ berryEntries label insideMetadata lines, ¬reading.Throws := by
  induction lines generalizing insideMetadata with
  | nil => simp [berryEntries]
  | cons line lines ih =>
    cases line with
    | nothing => exact ih insideMetadata
    | unsupported =>
      rw [berryEntries, List.forall_mem_cons]
      exact ⟨not_throws_skipped _, ih insideMetadata⟩
    | node node =>
      rw [berryEntries]
      split_ifs
      · exact ih _
      · exact ih _
      · rw [List.forall_mem_cons]
        exact ⟨not_throws_readResolution label node.value, ih _⟩

/-- Wherever the locator stands in a lockfile, its component is emitted between
those of the lines before and behind it. -/
def IsDecoded (package : BerryPackage) (locator : BerryLocator) : Prop :=
  ∀ {text before node after},
    HoldsResolution text before node after (locator.text package) →
    ∀ (label : String) (limit : Nat) (state : ParseState),
      (berryManifest label text).entries.length ≤ state.packageBudget →
      ∃ behind component,
        parseManifest "yarn" limit (berryManifest label text) state =
            some behind ∧
          IsExact package locator label component ∧
          behind.emitted = state.emitted ++
            ((berryEntries label false before).filterMap Reading.emission? ++
              { component := canonicalized component } ::
                (berryEntries label false after).filterMap Reading.emission?)

section Lockfiles

variable {package : BerryPackage} {locator : BerryLocator}

theorem isDecoded_of_isPlainOrPatch (h : locator.IsWritten package)
    (hplain : locator.IsPlainOrPatch) : IsDecoded package locator := by
  intro text before node after hholds label limit state hbudget
  obtain ⟨component, hread, hexact⟩ := (exists_isExact_iff h label).mpr hplain
  obtain ⟨behind, -, hparse, hemitted, -⟩ :=
    @parseManifest_of_budget "yarn" limit (berryManifest label text) rfl
      (not_throws_berryEntries label false (lineResults text)) state hbudget
  refine ⟨behind, component, hparse, hexact, ?_⟩
  rw [hemitted, hholds.entries_eq, List.filterMap_append, List.filterMap_cons]
  simp only [Reading.emission?, hread]

/-- The characters of a locator stand for themselves between quotes. -/
theorem isPlainCharacter_of_mem_text (h : locator.IsWritten package) :
    ∀ c ∈ locator.text package, isPlainCharacter c = true := by
  have hprotocol : locator.protocol.all isPlainCharacter = true := by
    cases locator
    · exact (by decide : npmProtocol.all isPlainCharacter = true)
    · exact (by decide : patchProtocol.all isPlainCharacter = true)
  have hselector : ∀ c ∈ locator.selector package,
      isPlainCharacter c = true := by
    intro c hc
    cases locator with
    | npm bindings? =>
      rcases List.mem_append.mp hc with hversion | hbindings
      · exact package.isPlain_version c hversion
      · exact h c hbindings
    | patch encoded inner path qualifiers? =>
      obtain ⟨-, -, -, -, -, hplain⟩ := h
      simp only [BerryLocator.selector, List.mem_append, List.mem_cons] at hc
      rcases hc with hencoded | rfl | hpath | hqualifiers
      · exact hplain c (by simp [hencoded])
      · decide
      · exact hplain c (by simp [hpath])
      · exact hplain c (by simp [hqualifiers])
  intro c hc
  simp only [BerryLocator.text, List.mem_append, List.mem_cons] at hc
  rcases hc with hname | rfl | hmem | rfl | hmem
  · exact package.isPlain_name c hname
  · decide
  · exact List.all_eq_true.mp hprotocol c hmem
  · decide
  · exact hselector c hmem

/-- A resolution field in quotes. -/
theorem readLine_resolution {value : List Char} (hne : value ≠ [])
    (hvalue : ∀ c ∈ value, isPlainCharacter c = true) :
    readLine none ("  resolution: ".toList ++ spelled (some '"') value) =
      (none, .node
        { indentation := 2, key := resolutionKey, value := value,
          opensBlock := false, isFlowMapping := false }) := by
  have hfront : ∀ c ∈ "resolution: ".toList, isQuote c = false ∧
      ∀ previous rest, startsComment previous c rest = false := by
    intro c hc
    have hall : "resolution: ".toList.all (fun c => !isQuote c && c ≠ '#') =
        true := by decide
    have hc := List.all_eq_true.mp hall c hc
    simp only [Bool.and_eq_true, Bool.not_eq_true', decide_eq_true_eq] at hc
    exact ⟨hc.1, fun previous rest => by simp [startsComment, hc.2]⟩
  have hbody : ∀ c ∈ value, c ≠ '"' ∧ ('"' = '"' → c ≠ '\\') := by
    intro c hc
    have hplain := hvalue c hc
    simp only [isPlainCharacter, decide_eq_true_eq] at hplain
    exact ⟨hplain.1, fun _ => hplain.2.1⟩
  have hkey : IsSpellable none "resolution".toList :=
    { ne_nil := by decide
      isSolid := fun _ =>
        ⟨⟨'r', rfl, by decide⟩, ⟨'n', rfl, by decide⟩⟩
      isQuote := fun _ hquote => absurd hquote (Option.not_mem_none _)
      plain := by
        have hall : "resolution".toList.all (fun c =>
            !YamlSubset.isQuote c && c ≠ '\\' && c ≠ '#') = true := by decide
        intro c hc
        have hc := List.all_eq_true.mp hall c hc
        simp only [Bool.and_eq_true, Bool.not_eq_true', decide_eq_true_eq] at hc
        exact ⟨hc.1.1, hc.1.2, hc.2⟩ }
  have hsolid : IsSolid (spelled (some '"') value) :=
    ⟨⟨'"', rfl, by decide⟩,
      ⟨'"', List.getLast?_eq_some_iff.mpr ⟨'"' :: value, rfl⟩, by decide⟩⟩
  have hcomment : withoutComment
      ("resolution: ".toList ++ spelled (some '"') value) =
        "resolution: ".toList ++ spelled (some '"') value := by
    rw [withoutComment, splitOutsideQuotes_append_of_forall hfront none _
      (some ' ') (by decide), spelled,
      splitOutsideQuotes_quoted (by decide) hbody]
    rfl
  have hread := @readLine_uncommentedField none "resolution".toList hkey
    (by decide) (by intro c hc; cases hc; decide) 2 _ hsolid hcomment
    (by intro c hc; cases hc; decide)
  rw [nodeOf_quoted 2 (by decide) hne] at hread
  exact hread

def entryLock (value : List Char) : List Char :=
  joinTerminated '\n'
    ["k:".toList, "  resolution: ".toList ++ spelled (some '"') value]

theorem holdsResolution_entryLock {value : List Char} (hne : value ≠ [])
    (hvalue : ∀ c ∈ value, isPlainCharacter c = true) :
    HoldsResolution (entryLock value)
      [.node { indentation := 0, key := ['k'], value := [], opensBlock := true,
               isFlowMapping := false }]
      { indentation := 2, key := resolutionKey, value := value,
        opensBlock := false, isFlowMapping := false }
      [.nothing] value where
  lines := by
    have hnewline : '\n' ∉ value := by
      intro hmem
      exact absurd (hvalue _ hmem) (by decide)
    have hlines : ∀ line ∈ ["k:".toList,
        "  resolution: ".toList ++ spelled (some '"') value],
        '\n' ∉ line := by
      intro line hline
      rw [List.mem_cons, List.mem_singleton] at hline
      rcases hline with rfl | rfl
      · decide
      · simp [spelled, hnewline]
    have hkey : readLine none "k:".toList =
        (none, .node { indentation := 0, key := ['k'], value := [],
                       opensBlock := true, isFlowMapping := false }) := by
      decide +kernel
    rw [lineResults, entryLock, splitOn_joinTerminated hlines]
    simp only [List.cons_append, List.nil_append, readLines, hkey,
      readLine_resolution hne hvalue]
    rfl
  outside := rfl
  indentation := rfl
  key := rfl
  value := rfl

/-- What a lockfile of one entry emits is what its resolution is read as. -/
theorem isPlainOrPatch_of_isDecoded (h : locator.IsWritten package)
    (hdecoded : IsDecoded package locator) : locator.IsPlainOrPatch := by
  have hne : locator.text package ≠ [] :=
    List.append_ne_nil_of_left_ne_nil package.name_ne_nil _
  have hholds := holdsResolution_entryLock hne (isPlainCharacter_of_mem_text h)
  have hentries := hholds.entries_eq ""
  obtain ⟨behind, component, hparse, hexact, hemitted⟩ :=
    hdecoded hholds "" 0 { packageBudget := 1 } (by rw [hentries]; rfl)
  obtain ⟨behind', -, hparse', hemitted', -⟩ :=
    @parseManifest_of_budget "yarn" 0
      (berryManifest "" (entryLock (locator.text package))) rfl
      (not_throws_berryEntries "" false _) { packageBudget := 1 }
      (by rw [hentries]; rfl)
  obtain rfl := Option.some.inj (hparse.symm.trans hparse')
  rw [hemitted, hentries] at hemitted'
  have hemission : [({ component := canonicalized component } : Emission)] =
      [{ outcome := readResolution "" (locator.text package) }].filterMap
        Reading.emission? := hemitted'
  rcases hemit : Reading.emission?
      { outcome := readResolution "" (locator.text package) } with _ | emission
  · rw [List.filterMap_cons_none hemit] at hemission
    cases hemission
  rw [List.filterMap_cons_some hemit] at hemission
  obtain rfl := List.head_eq_of_cons_eq hemission
  rcases hread : readResolution "" (locator.text package) with
    _ | reason | component? | _ <;> simp only [Reading.emission?, hread] at hemit
  · cases hemit
  · cases hemit
  · rcases component? with _ | read
    · cases hemit
    have hsame : canonicalized component = canonicalized read :=
      (congrArg Emission.component (Option.some.inj hemit)).symm
    have hexact' := (isExact_canonicalized_iff component).mpr hexact
    rw [hsame, isExact_canonicalized_iff] at hexact'
    exact (exists_isExact_iff h "").mp ⟨read, hread, hexact'⟩
  · cases hemit

/-- A locator is decoded exactly when it is the plain one or a patch of it. -/
theorem isDecoded_iff (package : BerryPackage) (locator : BerryLocator)
    (h : locator.IsWritten package) :
    IsDecoded package locator ↔ locator.IsPlainOrPatch :=
  ⟨isPlainOrPatch_of_isDecoded h, isDecoded_of_isPlainOrPatch h⟩

/-- The package `a` in version 1.0. -/
def samplePackage : BerryPackage where
  name := ['a']
  version := "1.0".toList
  name_ne_nil := by decide
  notMem_tail := by decide
  isPlain_name := List.all_eq_true.mp (by decide)
  version_ne_nil := by decide
  isPlain_version := List.all_eq_true.mp (by decide)

/-- The decoding of the locator `a@npm:1.0`. -/
theorem isDecoded_samplePackage :
    IsDecoded samplePackage (.npm none) ↔ (.npm none :
      BerryLocator).IsPlainOrPatch :=
  isDecoded_iff samplePackage (.npm none) (by
    intro c hc
    cases hc)

/-- A locator with an archive URL behind the version. -/
theorem not_isDecoded_samplePackage :
    ¬IsDecoded samplePackage
      (.npm (some "__archiveUrl=https%3A%2F%2Fr%2Fa.tgz".toList)) := by
  intro hdecoded
  have hall : (BerryLocator.qualified
      (some "__archiveUrl=https%3A%2F%2Fr%2Fa.tgz".toList)).all
        isPlainCharacter = true := by decide
  have hwritten : BerryLocator.IsWritten samplePackage
      (.npm (some "__archiveUrl=https%3A%2F%2Fr%2Fa.tgz".toList)) :=
    List.all_eq_true.mp hall
  exact Option.some_ne_none _ (isPlainOrPatch_of_isDecoded hwritten hdecoded)

end Lockfiles
end Bomwerk.Lockfiles.Yarn
