import Bomwerk.Core.PurlParts
import Bomwerk.Lockfiles.PnpmAccounts

/-!
# Registry packages of a pnpm-lock.yaml

The keys and the resolutions that pnpm writes for the packages of a registry
and for those out of directories, archives and repositories.  The parser takes
the integrity for the mark of the registry, which archives have too.
-/

namespace Bomwerk.Lockfiles.Pnpm

open Bomwerk.Core Bomwerk.Core.YamlSubset

/-! ## Keys -/

/-- What a key names behind the `@` of a package that is not out of the
registry. -/
def otherProtocols : List (List Char) :=
  ["file".toList, "link".toList, "http".toList, "https".toList, "git".toList,
    "ssh".toList, "git+ssh".toList, "git+http".toList, "git+https".toList,
    "git+file".toList]

/-- A key of the packages section, with what stands in parentheses behind it. -/
inductive PackageKey
  /-- `name@version`, behind a `/` in version 6. -/
  | registry (slash : Bool) (name version peers : List Char)
  /-- `name@protocol:rest`. -/
  | other (name protocol rest peers : List Char)

namespace PackageKey

/-- What stands behind the `@`. -/
def target : PackageKey → List Char
  | registry _ _ version _ => version
  | other _ protocol rest _ => protocol ++ ':' :: rest

def name : PackageKey → List Char
  | registry _ name _ _ => name
  | other name _ _ _ => name

def peers : PackageKey → List Char
  | registry _ _ _ peers => peers
  | other _ _ _ peers => peers

def slash : PackageKey → List Char
  | registry true _ _ _ => ['/']
  | _ => []

def text (key : PackageKey) : List Char :=
  key.slash ++ (key.name ++ '@' :: (key.target ++ key.peers))

/-- A version has no `@` and no parenthesis; another target has a protocol. -/
def HasTarget : PackageKey → Prop
  | registry _ _ version _ => version ≠ [] ∧ '@' ∉ version ∧ '(' ∉ version
  | other _ protocol _ _ => protocol ∈ otherProtocols

/-- A name has no `/` at its head and no parenthesis; peers stand in
parentheses. -/
structure IsWritten (key : PackageKey) : Prop where
  name_ne_nil : key.name ≠ []
  name_head : key.name.head? ≠ some '/'
  name_plain : '(' ∉ key.name
  peers_head : key.peers ≠ [] → key.peers.head? = some '('
  hasTarget : key.HasTarget

/-- What stands behind the `@` up to the first parenthesis. -/
def cutTarget (key : PackageKey) : List Char :=
  key.target.takeWhile (· ≠ '(')

end PackageKey

section Keys

variable {key : PackageKey}

theorem cutTarget_ne_nil (h : key.IsWritten) : key.cutTarget ≠ [] := by
  have htarget := h.hasTarget
  cases key with
  | registry slash name version peers =>
    obtain ⟨hne, -, hparenthesis⟩ := htarget
    obtain ⟨c, rest, rfl⟩ := List.exists_cons_of_ne_nil hne
    have hc : c ≠ '(' := fun heq => hparenthesis (by simp [heq])
    simp [PackageKey.cutTarget, PackageKey.target, hc]
  | other name protocol rest peers =>
    have hall : otherProtocols.all (fun protocol =>
        protocol.head?.any (· ≠ '(')) = true := by decide
    have hhead := List.all_eq_true.mp hall protocol htarget
    obtain ⟨c, hc, hplain⟩ := Option.any_eq_true _ _ |>.mp hhead
    obtain ⟨tail, rfl⟩ := List.head?_eq_some_iff.mp hc
    have hc : c ≠ '(' := of_decide_eq_true hplain
    simp [PackageKey.cutTarget, PackageKey.target, hc]

/-- A key is cut at its first parenthesis. -/
theorem takeWhile_text (h : key.IsWritten) :
    (key.name ++ '@' :: (key.target ++ key.peers)).takeWhile (· ≠ '(') =
      key.name ++ '@' :: key.cutTarget := by
  have hname : ∀ c ∈ key.name, decide (c ≠ '(') = true := by
    intro c hc
    rw [decide_eq_true_eq]
    rintro rfl
    exact h.name_plain hc
  have hpeers : key.peers.takeWhile (· ≠ '(') = [] := by
    rcases hpeers : key.peers with _ | ⟨c, rest⟩
    · rfl
    · have hhead := h.peers_head (by simp [hpeers])
      rw [hpeers] at hhead
      obtain rfl := Option.some.inj hhead
      simp
  have htarget : (key.target ++ key.peers).takeWhile (· ≠ '(') =
      key.cutTarget := by
    rw [PackageKey.cutTarget, List.takeWhile_append]
    split_ifs with hlength
    · rw [hpeers, List.append_nil]
      exact ((List.takeWhile_prefix _).eq_of_length hlength).symm
    · rfl
  rw [List.takeWhile_append_of_pos hname, List.takeWhile_cons_of_pos (by decide),
    htarget]

theorem exists_splitLast (front : List Char) {target : List Char}
    (hne : target ≠ []) :
    ∃ before behind, front ++ '@' :: target = before ++ '@' :: behind ∧
      '@' ∉ behind ∧ front <+: before ∧
        (behind = [] ↔ target.getLast? = some '@') := by
  by_cases hmem : '@' ∈ target
  · obtain ⟨tail, head, hreverse, hnot⟩ :=
      List.eq_append_cons_of_mem (List.mem_reverse.mpr hmem)
    have htarget : target = head.reverse ++ '@' :: tail.reverse := by
      rw [← List.reverse_reverse target, hreverse]
      simp
    refine ⟨front ++ '@' :: head.reverse, tail.reverse, by rw [htarget]; simp,
      by simpa using hnot, List.prefix_append _ _, ?_⟩
    rw [List.getLast?_eq_head?_reverse, hreverse]
    cases tail with
    | nil => simp
    | cons c tail =>
      have hc : c ≠ '@' := fun heq => hnot (by simp [heq])
      simp [hc]
  · refine ⟨front, target, rfl, hmem, List.prefix_refl front, ?_⟩
    apply iff_of_false hne
    intro hlast
    exact hmem (List.mem_of_getLast? hlast)

/-- The key splits unless what stands behind its `@` ends in another one. -/
theorem splitPackageKey_text (h : key.IsWritten) :
    ∃ before behind,
      key.name ++ '@' :: key.cutTarget = before ++ '@' :: behind ∧
        '@' ∉ behind ∧
        splitPackageKey key.text =
          if key.cutTarget.getLast? = some '@' then none
          else some (before, behind) := by
  obtain ⟨before, behind, heq, hnot, hprefix, hempty⟩ :=
    exists_splitLast key.name (cutTarget_ne_nil h)
  have hbefore : before ≠ [] := by
    rintro rfl
    exact h.name_ne_nil (List.prefix_nil.mp hprefix)
  have hspelled : (if key.text.head? = some '/' then key.text.tail
      else key.text) = key.name ++ '@' :: (key.target ++ key.peers) := by
    obtain ⟨c, rest, hname⟩ := List.exists_cons_of_ne_nil h.name_ne_nil
    have hc : c ≠ '/' := by
      rintro rfl
      exact h.name_head (by rw [hname]; rfl)
    rw [PackageKey.text]
    rcases key with ⟨_ | _, name, version, peers⟩ | ⟨name, protocol, rest, peers⟩
    · simp_all [PackageKey.slash]
    · simp_all [PackageKey.slash]
    · simp_all [PackageKey.slash]
  refine ⟨before, behind, heq, hnot, ?_⟩
  rw [splitPackageKey]
  dsimp only
  rw [hspelled, takeWhile_text h, heq, afterLast?_append _ hnot,
    beforeLast_append _ hnot]
  simp only [hbefore, hempty, false_or]

end Keys

/-! ## Resolutions -/

/-- A field of a flow mapping, its value in quotes or not. -/
structure FlowField where
  name : List Char
  quote? : Option Char
  value : List Char
  name_ne_nil : name ≠ []
  isPlain_name : ∀ c ∈ name, isQuote c = false ∧ c ≠ ',' ∧ c ≠ ':' ∧
    isAsciiBlank c = false
  isPlain_value : quote? = none → IsSolid value ∧
    ∀ c ∈ value, isQuote c = false ∧ c ≠ ','
  isQuoted_value : ∀ quote ∈ quote?, isQuote quote = true ∧
    ∀ c ∈ value, c ≠ quote ∧ (quote = '"' → c ≠ '\\')

namespace FlowField

variable (field : FlowField)

def text : List Char :=
  field.name ++ ':' :: ' ' :: spelled field.quote? field.value

theorem isSolid_spelled : IsSolid (spelled field.quote? field.value) := by
  rcases hquote : field.quote? with _ | quote
  · exact (field.isPlain_value hquote).1
  · have hisQuote := (field.isQuoted_value quote hquote).1
    have hblank : isAsciiBlank quote = false := by
      rcases of_decide_eq_true hisQuote with rfl | rfl <;> decide
    exact ⟨⟨quote, rfl, hblank⟩,
      ⟨quote, List.getLast?_eq_some_iff.mpr ⟨quote :: field.value, rfl⟩,
        hblank⟩⟩

theorem isSolid_text : IsSolid field.text := by
  obtain ⟨c, rest, hname⟩ := List.exists_cons_of_ne_nil field.name_ne_nil
  have hblank := (field.isPlain_name c (by simp [hname])).2.2.2
  have hsolid := field.isSolid_spelled.append
    (⟨c, by simp [hname], hblank⟩ :
      ∃ c ∈ (field.name ++ [':', ' ']).head?, isAsciiBlank c = false)
  rw [List.append_assoc] at hsolid
  exact hsolid

/-- A comma in a field is no separator. -/
theorem splitOutsideQuotes_text {lead rest : List Char}
    (hlead : ∀ c ∈ lead, c = ' ')
    (hrest : rest = [] ∨ rest.head? = some ',') :
    splitOutsideQuotes isComma none none (lead ++ field.text ++ rest) =
      (lead ++ field.text, rest) := by
  have hfront : ∀ c ∈ lead ++ field.name ++ [':', ' '], isQuote c = false ∧
      ∀ previous rest, isComma previous c rest = false := by
    intro c hc
    rw [List.mem_append, List.mem_append] at hc
    rcases hc with (hc | hc) | hc
    · obtain rfl := hlead c hc
      exact ⟨rfl, fun _ _ => rfl⟩
    · obtain ⟨hquote, hcomma, -, -⟩ := field.isPlain_name c hc
      exact ⟨hquote, fun _ _ => decide_eq_false hcomma⟩
    · simp only [List.mem_cons, List.not_mem_nil, or_false] at hc
      rcases hc with rfl | rfl <;> exact ⟨rfl, fun _ _ => rfl⟩
  have hend : ∀ previous, splitOutsideQuotes isComma none previous rest =
      ([], rest) := by
    intro previous
    rcases rest with _ | ⟨c, rest⟩
    · rfl
    · obtain rfl : c = ',' := by simpa using hrest
      rfl
  have hline : lead ++ field.text ++ rest = lead ++ field.name ++ [':', ' '] ++
        (spelled field.quote? field.value ++ rest) := by
    rw [text]
    simp
  rw [hline, splitOutsideQuotes_append_of_forall hfront none _ (some ' ')
    (by simp)]
  rcases hquote : field.quote? with _ | quote
  · have hvalue : ∀ c ∈ field.value, isQuote c = false ∧
        ∀ previous rest, isComma previous c rest = false := by
      intro c hc
      obtain ⟨hc, hcomma⟩ := (field.isPlain_value hquote).2 c hc
      exact ⟨hc, fun _ _ => decide_eq_false hcomma⟩
    rw [spelled, splitOutsideQuotes_append_of_forall hvalue (some ' ') rest _ rfl,
      hend]
    simp [text, hquote, spelled]
  · obtain ⟨hisQuote, hvalue⟩ := field.isQuoted_value quote hquote
    have hspelled : spelled (some quote) field.value ++ rest =
        quote :: (field.value ++ quote :: rest) := by
      simp [spelled]
    rw [hspelled, splitOutsideQuotes_quoted hisQuote hvalue, hend]
    simp [text, hquote, spelled]

end FlowField

/-- The text between the braces of a mapping. -/
def interior : List FlowField → List Char
  | [] => []
  | [field] => field.text
  | field :: fields => field.text ++ ',' :: ' ' :: interior fields

theorem FlowField.trimmed_text {lead : List Char} (hlead : ∀ c ∈ lead, c = ' ')
    (field : FlowField) : trimmed (lead ++ field.text) = field.text := by
  rw [List.eq_replicate_of_mem hlead]
  exact trimmed_replicate_append field.isSolid_text

/-- The segments of a mapping are its fields. -/
theorem flowSegments_interior {lead : List Char} (hlead : ∀ c ∈ lead, c = ' ')
    {fields : List FlowField} (hne : fields ≠ []) {fuel : Nat}
    (hfuel : (lead ++ interior fields).length < fuel) :
    flowSegments fuel (lead ++ interior fields) =
      fields.map FlowField.text := by
  induction fields generalizing lead fuel with
  | nil => exact absurd rfl hne
  | cons field fields ih =>
    obtain ⟨fuel, rfl⟩ := Nat.exists_eq_add_one_of_ne_zero
      (Nat.ne_zero_of_lt hfuel)
    cases fields with
    | nil =>
      have hsplit := field.splitOutsideQuotes_text hlead (.inl rfl)
      rw [List.append_nil] at hsplit
      rw [interior, flowSegments, hsplit]
      simp only [FlowField.trimmed_text hlead, List.map_cons, List.map_nil]
    | cons second fields =>
      have hsplit := @FlowField.splitOutsideQuotes_text field lead
        (',' :: ' ' :: interior (second :: fields)) hlead (.inr rfl)
      rw [List.append_assoc] at hsplit
      have hmore := @ih [' '] (by simp) (by simp) fuel (by
        simp only [interior, List.length_append, List.length_cons] at hfuel ⊢
        simp only [List.length_nil]
        omega)
      rw [interior, flowSegments, hsplit]
      · simp only [FlowField.trimmed_text hlead]
        exact congrArg (List.cons _) hmore
      · simp

def fieldValue (fields : List FlowField) (name : List Char) : List Char :=
  match fields.find? (·.name = name) with
  | some field => spelled field.quote? field.value
  | none => []

theorem flowMappingField_interior (fields : List FlowField)
    (name : List Char) :
    flowMappingField (interior fields) name = fieldValue fields name := by
  by_cases hne : fields = []
  · subst hne
    rfl
  have hsegments := @flowSegments_interior [] (by simp) fields hne
    ((interior fields).length + 1) (Nat.lt_succ_self _)
  rw [List.nil_append] at hsegments
  rw [flowMappingField, hsegments]
  clear hsegments hne
  induction fields with
  | nil => rfl
  | cons field fields ih =>
    have hplain : ∀ c ∈ field.name, decide (c ≠ ':') = true := fun c hc =>
      decide_eq_true (field.isPlain_name c hc).2.2.1
    have htake : field.text.takeWhile (· ≠ ':') = field.name := by
      rw [FlowField.text, List.takeWhile_append_of_pos hplain]
      simp
    have hdrop : (field.text.dropWhile (· ≠ ':')).tail =
        ' ' :: spelled field.quote? field.value := by
      rw [FlowField.text, List.dropWhile_append_of_pos hplain]
      simp
    have hcolon : ':' ∈ field.text := by simp [FlowField.text]
    have hname : trimmed field.name = field.name :=
      (isSolid_of_forall field.name_ne_nil fun c hc =>
        (field.isPlain_name c hc).2.2.2).trimmed_eq
    have hvalue : trimmed (' ' :: spelled field.quote? field.value) =
        spelled field.quote? field.value :=
      @trimmed_replicate_append 1 _ field.isSolid_spelled
    rw [fieldValue, List.map_cons]
    by_cases hfield : field.name = name
    · subst hfield
      rw [List.find?_cons_of_pos (by
          simp only [hcolon, htake, hname, and_self, decide_true]),
        List.find?_cons_of_pos (by simp)]
      simp only [hdrop, hvalue]
    · rw [List.find?_cons_of_neg (by
          simp only [hcolon, htake, hname, hfield, and_false, decide_false,
            Bool.false_eq_true, not_false_eq_true]),
        List.find?_cons_of_neg (by simp [hfield])]
      exact ih

/-- The resolution of an entry: a mapping on its line, or anything else. -/
inductive Resolution
  | flow (fields : List FlowField)
  | other

def Resolution.IsReadAs (resolution : Resolution) (node : Node) : Prop :=
  node.indentation = entryFieldIndentation ∧ node.key = resolutionKey ∧
    match resolution with
    | flow fields => node.isFlowMapping = true ∧ node.value = interior fields
    | other => node.isFlowMapping = false

def Resolution.HasIntegrity : Resolution → Prop
  | flow fields => ∃ field ∈ fields, field.name = integrityField
  | other => False

theorem fieldValue_eq_nil_iff {fields : List FlowField} {name : List Char} :
    fieldValue fields name = [] ↔ ¬∃ field ∈ fields, field.name = name := by
  rw [fieldValue]
  split
  · rename_i field hfield
    have hmem := List.mem_of_find?_eq_some hfield
    have hname : field.name = name := by
      simpa using List.find?_some hfield
    exact iff_of_false field.isSolid_spelled.ne_nil
      (not_not.mpr ⟨field, hmem, hname⟩)
  · rename_i hnone
    apply iff_of_true rfl
    rintro ⟨field, hmem, hname⟩
    exact List.find?_eq_none.mp hnone field hmem (by simpa using hname)

/-- Whether the resolution gives a component does not depend on the entry. -/
theorem resolutionOutcome_of_isReadAs {resolution : Resolution} {node : Node}
    (h : resolution.IsReadAs node) (label : String)
    (pending : List Char × List Char) :
    (resolution.HasIntegrity ∧ ∃ detail, resolutionOutcome label node pending =
          .valid (some (Yarn.npmComponent pending.1 pending.2 detail))) ∨
      (¬resolution.HasIntegrity ∧ resolutionOutcome label node pending =
          .skipped .unsupportedResolution) := by
  obtain ⟨-, -, hread⟩ := h
  rw [resolutionOutcome]
  cases resolution with
  | flow fields =>
    obtain ⟨hflow, hvalue⟩ := hread
    rw [hflow, hvalue, if_pos rfl, flowMappingField_interior]
    by_cases hintegrity : fieldValue fields integrityField = []
    · exact .inr ⟨fieldValue_eq_nil_iff.mp hintegrity, if_pos hintegrity⟩
    · exact .inl ⟨not_not.mp (mt fieldValue_eq_nil_iff.mpr hintegrity),
        _, if_neg hintegrity⟩
  | other =>
    have hflow : node.isFlowMapping = false := hread
    rw [hflow]
    exact .inr ⟨not_false, rfl⟩

/-! ## Entries -/

def isResolutionField : LineResult → Bool
  | .node node =>
    node.indentation = entryFieldIndentation ∧ node.key = resolutionKey
  | _ => false

/-- The entry has the key, and the resolution as its first one. -/
structure IsEntryOf {lines : List LineResult} (entry : PackagesEntry lines)
    (key : PackageKey) (resolution : Resolution) : Prop where
  key : entry.head.key = key.text
  body : ∃ front node back, entry.body = front ++ .node node :: back ∧
    (∀ line ∈ front, isResolutionField line = false) ∧ resolution.IsReadAs node

/-- The first resolution decides about the entry. -/
theorem emissions_lockEntries_fields {front back : List LineResult}
    {node : Node} (hfields : ∀ line ∈ front ++ .node node :: back,
      isBoundary line = false)
    (hfront : ∀ line ∈ front, isResolutionField line = false)
    (hnode : isResolutionField (.node node) = true) (label : String)
    (pending : List Char × List Char) :
    (lockEntries label
        { pending := some pending, insidePackages := true,
          versionSupported := true }
        (front ++ .node node :: back)).readings.filterMap Reading.emission? =
      [{ outcome := resolutionOutcome label node pending }].filterMap
        Reading.emission? := by
  induction front with
  | nil =>
    rw [List.nil_append, List.forall_mem_cons] at hfields
    have hentry : ¬node.indentation ≤ entryKeyIndentation :=
      of_decide_eq_false hfields.1
    have hdocument : ¬node.indentation = documentIndentation :=
      fun h => hentry (h.le.trans (Nat.zero_le _))
    have hsilent := @isSilent_lockEntries_fields back hfields.2 label
      { insidePackages := true, versionSupported := true } rfl
    obtain ⟨hindentation, hkey⟩ := of_decide_eq_true hnode
    rw [List.nil_append, lockEntries]
    dsimp only
    rw [if_neg hdocument, if_neg hentry, if_neg (by simp [hindentation, hkey]),
      LockEntries.prepend, List.filterMap_append, hsilent.1, List.append_nil]
  | cons line front ih =>
    rw [List.cons_append, List.forall_mem_cons] at hfields
    rw [List.forall_mem_cons] at hfront
    have hmore := ih hfields.2 hfront.2
    cases line with
    | nothing => exact hmore
    | unsupported => exact hmore
    | node field =>
      have hentry : ¬field.indentation ≤ entryKeyIndentation :=
        of_decide_eq_false hfields.1
      have hdocument : ¬field.indentation = documentIndentation :=
        fun h => hentry (h.le.trans (Nat.zero_le _))
      have hother := of_decide_eq_false hfront.1
      rw [not_and_or] at hother
      rw [List.cons_append, lockEntries]
      dsimp only
      rw [if_neg hdocument, if_neg hentry, if_pos (.inr (.inr hother))]
      exact hmore

/-- What an entry behind the version emits. -/
theorem emissions_ownReadings {lines : List LineResult}
    (entry : PackagesEntry lines) (hversioned : IsVersioned entry)
    {front back : List LineResult} {node : Node}
    (hbody : entry.body = front ++ .node node :: back)
    (hfront : ∀ line ∈ front, isResolutionField line = false)
    (hnode : isResolutionField (.node node) = true) (label : String) :
    (entry.ownReadings label).filterMap Reading.emission? =
      match splitPackageKey entry.head.key with
      | none => []
      | some pending =>
        [{ outcome := resolutionOutcome label node pending }].filterMap
          Reading.emission? := by
  have hgates := gatesBehind_of_isVersioned entry hversioned
  have hfields := entry.isField
  rw [hbody] at hfields
  have hdocument : ¬entry.head.indentation = documentIndentation := by
    rw [entry.indentation]
    decide
  rw [Segment.ownReadings, hgates, hbody, lockEntries]
  dsimp only
  rw [if_neg hdocument, if_pos entry.indentation.le]
  simp only [entry.indentation, Bool.not_true, Bool.false_eq_true, ne_eq,
    not_true_eq_false, or_self, if_false, closePendingEntry_none,
    List.nil_append]
  rcases splitPackageKey entry.head.key with _ | pending
  · have hsilent := @isSilent_lockEntries_fields _ hfields label
      { insidePackages := true, versionSupported := true } rfl
    dsimp only
    rw [LockEntries.prepend, List.filterMap_append, hsilent.1]
    rfl
  · exact emissions_lockEntries_fields hfields hfront hnode label pending

/-- A package out of the registry is emitted as it is, and no other one is. -/
def ReportsRegistry (key : PackageKey) (resolution : Resolution) : Prop :=
  ∀ {lines : List LineResult} (entry : PackagesEntry lines) (label : String),
    IsVersioned entry → IsEntryOf entry key resolution →
      match key with
      | .registry _ name version _ =>
        resolution.HasIntegrity → ∃ component,
          (entry.ownReadings label).filterMap Reading.emission? =
              [{ component := canonicalized component }] ∧
            component.name = String.ofList name ∧
            component.version = String.ofList version
      | .other _ _ _ _ =>
        (entry.ownReadings label).filterMap Reading.emission? = []

/-- The key is one of the registry, or the resolution has no integrity, or the
key is malformed. -/
def IsTold (key : PackageKey) (resolution : Resolution) : Prop :=
  match key with
  | .registry _ _ _ _ => True
  | .other _ _ _ _ =>
    ¬resolution.HasIntegrity ∨ key.cutTarget.getLast? = some '@'

section Entries

variable {key : PackageKey} {resolution : Resolution}

theorem isResolutionField_of_isReadAs {node : Node}
    (h : resolution.IsReadAs node) : isResolutionField (.node node) = true :=
  decide_eq_true ⟨h.1, h.2.1⟩

theorem splitPackageKey_registry {slash : Bool} {name version peers : List Char}
    (h : (PackageKey.registry slash name version peers).IsWritten) :
    splitPackageKey (PackageKey.registry slash name version peers).text =
      some (name, version) := by
  obtain ⟨hne, hat, hparenthesis⟩ := h.hasTarget
  obtain ⟨before, behind, heq, hbehind, hsplit⟩ := splitPackageKey_text h
  have hcut : (PackageKey.registry slash name version peers).cutTarget =
      version := by
    rw [PackageKey.cutTarget, PackageKey.target, List.takeWhile_eq_self_iff]
    intro c hc
    rw [decide_eq_true_eq]
    rintro rfl
    exact hparenthesis hc
  have hlast : ¬version.getLast? = some '@' := fun hlast =>
    hat (List.mem_of_getLast? hlast)
  rw [hcut] at heq hsplit
  rw [if_neg hlast] at hsplit
  have hversion := (afterLast?_append name hat).symm.trans
    ((congrArg (afterLast? '@') heq).trans (afterLast?_append before hbehind))
  have hname := (beforeLast_append name hat).symm.trans
    ((congrArg (beforeLast '@') heq).trans (beforeLast_append before hbehind))
  have hname : name = before := hname
  rw [hsplit, hname, Option.some.inj hversion]

theorem reportsRegistry_of_isTold (h : key.IsWritten)
    (htold : IsTold key resolution) : ReportsRegistry key resolution := by
  intro lines entry label hversioned hentry
  obtain ⟨front, node, back, hbody, hfront, hread⟩ := hentry.body
  have hemissions := emissions_ownReadings entry hversioned hbody hfront
    (isResolutionField_of_isReadAs hread) label
  rw [hentry.key] at hemissions
  cases key with
  | registry slash name version peers =>
    intro hintegrity
    rw [splitPackageKey_registry h] at hemissions
    rcases resolutionOutcome_of_isReadAs hread label (name, version) with
      ⟨-, detail, houtcome⟩ | ⟨hnone, -⟩
    · refine ⟨Yarn.npmComponent name version detail, ?_, rfl, rfl⟩
      rw [hemissions]
      simp only [Reading.emission?, houtcome, List.filterMap_cons,
        List.filterMap_nil]
    · exact absurd hintegrity hnone
  | other name protocol rest peers =>
    obtain ⟨before, behind, -, -, hsplit⟩ := splitPackageKey_text h
    rw [hsplit] at hemissions
    change (entry.ownReadings label).filterMap Reading.emission? = []
    rw [hemissions]
    rcases htold with hintegrity | hlast
    · split
      · rfl
      · rename_i pending _
        rcases resolutionOutcome_of_isReadAs hread label pending with
          ⟨hsome, -⟩ | ⟨-, houtcome⟩
        · exact absurd hsome hintegrity
        · simp only [Reading.emission?, houtcome, List.filterMap_cons,
            List.filterMap_nil]
    · rw [if_pos hlast]

def entryLines (key : PackageKey) (node : Node) : List LineResult :=
  [.node (nodeOf 0 lockfileVersionKey "9.0".toList),
    .node (nodeOf 0 packagesKey []), .node (nodeOf 2 key.text []), .node node]

def entryOf (key : PackageKey) (node : Node)
    (hnode : node.indentation = entryFieldIndentation) :
    PackagesEntry (entryLines key node) where
  before := [.node (nodeOf 0 lockfileVersionKey "9.0".toList),
    .node (nodeOf 0 packagesKey [])]
  head := nodeOf 2 key.text []
  body := [.node node]
  after := []
  lines_eq := rfl
  isBoundary_head := le_refl 2
  isEnd := by simp
  inPackages := rfl
  indentation := rfl
  isField := by
    intro line hline
    obtain rfl := List.mem_singleton.mp hline
    exact decide_eq_false (by rw [hnode]; decide)

theorem exists_isReadAs (resolution : Resolution) :
    ∃ node, resolution.IsReadAs node := by
  cases resolution with
  | flow fields =>
    exact ⟨{ indentation := entryFieldIndentation, key := resolutionKey,
             value := interior fields, opensBlock := false,
             isFlowMapping := true }, rfl, rfl, rfl, rfl⟩
  | other =>
    exact ⟨{ indentation := entryFieldIndentation, key := resolutionKey,
             value := [], opensBlock := true, isFlowMapping := false },
      rfl, rfl, rfl⟩

/-- A package with an integrity is emitted, whatever its key names. -/
theorem isTold_of_reportsRegistry (h : key.IsWritten)
    (hreports : ReportsRegistry key resolution) : IsTold key resolution := by
  cases key with
  | registry slash name version peers => trivial
  | other name protocol rest peers =>
    by_contra htold
    rw [IsTold, not_or, not_not] at htold
    obtain ⟨hintegrity, hlast⟩ := htold
    obtain ⟨node, hread⟩ := exists_isReadAs resolution
    have hversioned : IsVersioned
        (entryOf (.other name protocol rest peers) node hread.1) :=
      ⟨_, List.mem_cons_self, rfl⟩
    have hnone := hreports
      (entryOf (.other name protocol rest peers) node hread.1) ""
      hversioned
      { key := rfl
        body := ⟨[], node, [], rfl, by simp, hread⟩ }
    obtain ⟨before, behind, -, -, hsplit⟩ := splitPackageKey_text h
    rw [if_neg hlast] at hsplit
    have hemissions := @emissions_ownReadings _
      (entryOf (.other name protocol rest peers) node hread.1) hversioned
      [] [] node rfl (by simp) (isResolutionField_of_isReadAs hread) ""
    rw [hnone] at hemissions
    have hkey : splitPackageKey (entryOf (.other name protocol rest peers)
        node hread.1).head.key = some (before, behind) := hsplit
    rw [hkey] at hemissions
    rcases resolutionOutcome_of_isReadAs hread "" (before, behind) with
      ⟨-, detail, houtcome⟩ | ⟨hnot, -⟩
    · simp [Reading.emission?, houtcome] at hemissions
    · exact hnot hintegrity

/-- The parser tells an entry by its integrity, which is right exactly when no
other package has one, or its key is malformed. -/
theorem reportsRegistry_iff (key : PackageKey) (resolution : Resolution)
    (h : key.IsWritten) :
    ReportsRegistry key resolution ↔ IsTold key resolution :=
  ⟨isTold_of_reportsRegistry h, reportsRegistry_of_isTold h⟩

/-- A package of the registry, with peers. -/
def registryKey : PackageKey :=
  .registry false ['a'] "1.0.0".toList "(b@2.0.0)".toList

theorem reportsRegistry_registryKey :
    ReportsRegistry registryKey .other ↔ IsTold registryKey .other :=
  reportsRegistry_iff registryKey .other
    { name_ne_nil := by decide
      name_head := by decide
      name_plain := by decide
      peers_head := fun _ => by decide
      hasTarget := ⟨by decide, by decide, by decide⟩ }

def archiveKey : PackageKey :=
  .other ['a'] "file".toList "a.tgz".toList []

def archiveIntegrity : FlowField where
  name := integrityField
  quote? := none
  value := ['x']
  name_ne_nil := by decide
  isPlain_name := by
    have hall : integrityField.all (fun c => !isQuote c && c ≠ ',' && c ≠ ':' &&
        !isAsciiBlank c) = true := by decide
    intro c hc
    simpa [and_assoc] using List.all_eq_true.mp hall c hc
  isPlain_value _ := ⟨⟨⟨'x', rfl, by decide⟩, ⟨'x', rfl, by decide⟩⟩, by
    intro c hc
    obtain rfl := List.mem_singleton.mp hc
    decide⟩
  isQuoted_value _ h := absurd h (Option.not_mem_none _)

/-- The archive is taken for a package in the version `file:a.tgz`. -/
theorem not_reportsRegistry_archiveKey :
    ¬ReportsRegistry archiveKey (.flow [archiveIntegrity]) := by
  intro hreports
  have hwritten : archiveKey.IsWritten :=
    { name_ne_nil := by decide
      name_head := by decide
      name_plain := by decide
      peers_head := fun h => absurd rfl h
      hasTarget := by
        change "file".toList ∈ otherProtocols
        decide }
  rcases isTold_of_reportsRegistry hwritten hreports with hnone | hlast
  · exact hnone ⟨archiveIntegrity, List.mem_singleton.mpr rfl, rfl⟩
  · exact absurd hlast (by decide)

end Entries
end Bomwerk.Lockfiles.Pnpm
