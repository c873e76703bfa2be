import Bomwerk.Core.VariableTables
import Mathlib.Tactic.Linarith

/-!
# Variable expansion

`expand_variables` of `core/build_variables.cpp`, and the expansion it is
compared with: a relation on texts without any limit, which a cyclic table
relates to no result.  A derivation carries what it costs: how deep expansions
nest, how many values are put in, and how long the text gets behind a
reference.  A text is its bytes, and a position in it the text from there on.
-/

namespace Bomwerk.Core

def maxExpansionDepth : Nat := 8

def maxSubstitutions : Nat := 256

def maxExpandedBytes : Nat := 8192

structure ExpansionBudget where
  substitutionsLeft : Nat := maxSubstitutions
  exceeded : Bool := false
  deriving DecidableEq

/-- `budget.exceeded = true`. -/
def ExpansionBudget.exceed (budget : ExpansionBudget) : ExpansionBudget :=
  { budget with exceeded := true }

/-- `find_closing_bracket`, from behind a bracket on: what stands before the
bracket that closes `nesting` brackets, and what stands behind it. -/
def findClosingBracket (dialect : VariableDialect) :
    (nesting : Nat) → List Char → Option (List Char × List Char)
  | _, [] => none
  | nesting, c :: text =>
    if c = dialect.openBracket then
      (findClosingBracket dialect (nesting + 1) text).map
        fun (inner, rest) => (c :: inner, rest)
    else if c = dialect.closeBracket then
      if nesting - 1 = 0 then some ([], text)
      else
        (findClosingBracket dialect (nesting - 1) text).map
          fun (inner, rest) => (c :: inner, rest)
    else
      (findClosingBracket dialect nesting text).map
        fun (inner, rest) => (c :: inner, rest)

theorem findClosingBracket_eq {dialect : VariableDialect} {nesting : Nat}
    {text inner rest : List Char}
    (h : findClosingBracket dialect nesting text = some (inner, rest)) :
    text = inner ++ dialect.closeBracket :: rest := by
  induction text generalizing nesting inner with
  | nil => simp [findClosingBracket] at h
  | cons c text ih =>
    have hlonger : ∀ nesting, (findClosingBracket dialect nesting text).map
            (fun found : List Char × List Char => (c :: found.1, found.2)) =
          some (inner, rest) →
        c :: text = inner ++ dialect.closeBracket :: rest := by
      intro nesting hmap
      obtain ⟨⟨inner', rest'⟩, hfound, heq⟩ := Option.map_eq_some_iff.mp hmap
      obtain ⟨rfl, rfl⟩ := Prod.mk.inj heq
      rw [ih hfound, List.cons_append]
    rw [findClosingBracket] at h
    split_ifs at h with hopen hclose hlast
    · exact hlonger _ h
    · obtain ⟨rfl, rfl⟩ : [] = inner ∧ text = rest := by simpa using h
      rw [hclose, List.nil_append]
    · exact hlonger _ h
    · exact hlonger _ h

/-- `text[position] == '$'` with the opening bracket behind it: the text behind
the bracket. -/
def startsReference (dialect : VariableDialect) : List Char → Option (List Char)
  | '$' :: bracket :: text =>
    if bracket = dialect.openBracket then some text else none
  | _ => none

theorem startsReference_eq_some_iff {dialect : VariableDialect}
    {text behind : List Char} :
    startsReference dialect text = some behind ↔
      text = '$' :: dialect.openBracket :: behind := by
  unfold startsReference
  split
  · split_ifs with hbracket
    · simp [hbracket]
    · simp [hbracket]
  · constructor
    · intro h
      exact absurd h (by simp)
    · rintro rfl
      simp_all

/-- The reference to a name, as it is written. -/
def referenceTo (dialect : VariableDialect) (rawName : List Char) : List Char :=
  '$' :: dialect.openBracket :: rawName ++ [dialect.closeBracket]

/-- The value behind a reference, when it is defined and unambiguous. -/
def valueOf? (table : VariableTable) (dialect : VariableDialect)
    (name : List Char) : Option (List Char) :=
  (definedValue? table dialect (String.ofList name)).map String.toList

/-- The expansion of a reference to `name` appended to `expanded`. -/
def expandReference (expand : List Char → ExpansionBudget →
      List Char × ExpansionBudget) (table : VariableTable)
    (dialect : VariableDialect) (expanded rawName name : List Char)
    (budget : ExpansionBudget) : List Char × ExpansionBudget :=
  match valueOf? table dialect name with
  | none => (expanded ++ referenceTo dialect rawName, budget)
  | some value =>
    if budget.substitutionsLeft = 0 then (expanded, budget.exceed)
    else
      let (result, budget) := expand value
        { budget with substitutionsLeft := budget.substitutionsLeft - 1 }
      (expanded ++ result, budget)

def checkExpandedSize (expanded : List Char) (budget : ExpansionBudget) :
    ExpansionBudget :=
  if maxExpandedBytes < expanded.length then budget.exceed else budget

/-- The loop of `expand_with_budget`, over the expansion of nested texts. -/
def expandLoop (expand : List Char → ExpansionBudget →
      List Char × ExpansionBudget) (table : VariableTable)
    (dialect : VariableDialect) (expanded text : List Char)
    (budget : ExpansionBudget) : List Char × ExpansionBudget :=
  if budget.exceeded then (expanded, budget)
  else
    match _hstart : startsReference dialect text with
    | some behind =>
      match _hclosing : findClosingBracket dialect 1 behind with
      | none => (expanded ++ text, budget)
      | some (rawName, rest) =>
        let (name, budget) := expand rawName budget
        let (expanded, budget) :=
          expandReference expand table dialect expanded rawName name budget
        expandLoop expand table dialect expanded rest
          (checkExpandedSize expanded budget)
    | none =>
      match text with
      | [] => (expanded, budget)
      | c :: rest =>
        expandLoop expand table dialect (expanded ++ [c]) rest budget
termination_by text.length
decreasing_by
  · rw [startsReference_eq_some_iff.mp _hstart, findClosingBracket_eq _hclosing]
    simp only [List.length_cons, List.length_append]
    omega
  · simp

/-- `expand_with_budget` at depth `kMaxExpansionDepth + 1 - levels`. -/
def expandWithBudget (table : VariableTable) (dialect : VariableDialect) :
    (levels : Nat) → List Char → ExpansionBudget → List Char × ExpansionBudget
  | 0, text, budget => (text, budget.exceed)
  | levels + 1, text, budget =>
    expandLoop (expandWithBudget table dialect levels) table dialect [] text
      budget

def expandVariables (text : String) (table : VariableTable)
    (dialect : VariableDialect) : String :=
  if table.isEmpty ∨ '$' ∉ text.toList then text
  else
    let (expanded, budget) := expandWithBudget table dialect
      (maxExpansionDepth + 1) text.toList {}
    if budget.exceeded then text else String.ofList expanded

/-- The brackets of a text close `n` brackets in front of it, and no part of it
from the front on closes more. -/
structure ClosesInside (dialect : VariableDialect) (n : Nat)
    (inner : List Char) : Prop where
  total : inner.count dialect.closeBracket = inner.count dialect.openBracket + n
  front : ∀ front, front <+: inner →
    front.count dialect.closeBracket ≤ front.count dialect.openBracket + n

/-- The bracket that stands behind `inner` closes the one in front of it. -/
structure Closes (dialect : VariableDialect) (behind inner rest : List Char) :
    Prop where
  split : behind = inner ++ dialect.closeBracket :: rest
  different : dialect.openBracket ≠ dialect.closeBracket
  inside : ClosesInside dialect 0 inner

structure ExpansionCost where
  /-- How deep expansions of names and values nest. -/
  depth : Nat
  /-- How many values are put in. -/
  substitutions : Nat
  /-- How long an expansion gets up to the end of a reference. -/
  size : Nat

namespace ExpansionCost

def free : ExpansionCost := ⟨0, 0, 0⟩

/-- The expansion of a name or a value, one level down. -/
def nested (cost : ExpansionCost) : ExpansionCost :=
  { cost with depth := cost.depth + 1 }

def both (left right : ExpansionCost) : ExpansionCost where
  depth := max left.depth right.depth
  substitutions := left.substitutions + right.substitutions
  size := max left.size right.size

/-- A reference up to whose end the expansion has this length. -/
def reaching (size : Nat) : ExpansionCost := ⟨0, 0, size⟩

def substitution : ExpansionCost := ⟨0, 1, 0⟩

structure WithinLimits (cost : ExpansionCost) : Prop where
  depth : cost.depth ≤ maxExpansionDepth
  substitutions : cost.substitutions ≤ maxSubstitutions
  size : cost.size ≤ maxExpandedBytes

end ExpansionCost

section Reference

variable (table : VariableTable) (dialect : VariableDialect)

/-- The reference expansion of a text that stands behind `before` characters of
the result: a reference whose expanded name has a value is replaced by the
expanded value, and everything else stays as it is. -/
inductive Expands :
    (before : Nat) → List Char → List Char → ExpansionCost → Prop
  | nil {before} : Expands before [] [] .free
  | plain {before c text result cost} :
      (∀ behind, c :: text ≠ '$' :: dialect.openBracket :: behind) →
      Expands (before + 1) text result cost →
      Expands before (c :: text) (c :: result) cost
  | unterminated {before behind} :
      (∀ inner rest, ¬ Closes dialect behind inner rest) →
      Expands before ('$' :: dialect.openBracket :: behind)
        ('$' :: dialect.openBracket :: behind) .free
  | undefined {before behind rawName rest name nameCost result cost} :
      Closes dialect behind rawName rest →
      Expands 0 rawName name nameCost →
      valueOf? table dialect name = none →
      Expands (before + (referenceTo dialect rawName).length) rest result
        cost →
      Expands before ('$' :: dialect.openBracket :: behind)
        (referenceTo dialect rawName ++ result)
        (nameCost.nested.both
          ((ExpansionCost.reaching
            (before + (referenceTo dialect rawName).length)).both cost))
  | defined {before behind rawName rest name nameCost value expandedValue
        valueCost result cost} :
      Closes dialect behind rawName rest →
      Expands 0 rawName name nameCost →
      valueOf? table dialect name = some value →
      Expands 0 value expandedValue valueCost →
      Expands (before + expandedValue.length) rest result cost →
      Expands before ('$' :: dialect.openBracket :: behind)
        (expandedValue ++ result)
        (nameCost.nested.both
          ((ExpansionCost.substitution.both valueCost.nested).both
            ((ExpansionCost.reaching
              (before + expandedValue.length)).both cost)))

end Reference

/-! ### Brackets -/

section Brackets

variable {dialect : VariableDialect} {n : Nat} {c : Char} {inner : List Char}

theorem closesInside_nil_iff : ClosesInside dialect n [] ↔ n = 0 := by
  constructor
  · intro h
    simpa using h.total.symm
  · rintro rfl
    exact ⟨rfl, by simp⟩

theorem closesInside_cons_iff {m : Nat}
    (hcount : (if c = dialect.closeBracket then 1 else 0) + m =
      (if c = dialect.openBracket then 1 else 0) + n) :
    ClosesInside dialect n (c :: inner) ↔ ClosesInside dialect m inner := by
  have hcons : ∀ text : List Char,
      (c :: text).count dialect.closeBracket + m + text.count dialect.openBracket =
        (c :: text).count dialect.openBracket + n +
          text.count dialect.closeBracket := by
    intro text
    simp only [List.count_cons, beq_iff_eq]
    omega
  constructor
  · intro h
    refine ⟨?_, ?_⟩
    · have htotal := h.total
      have hinner := hcons inner
      omega
    · intro front hfront
      have hlonger := h.front (c :: front) (List.cons_prefix_cons.mpr ⟨rfl, hfront⟩)
      have heq := hcons front
      omega
  · intro h
    refine ⟨?_, ?_⟩
    · have htotal := h.total
      have hinner := hcons inner
      omega
    · intro front hfront
      rcases List.prefix_cons_iff.mp hfront with rfl | ⟨tail, rfl, htail⟩
      · simp
      · have hshorter := h.front tail htail
        have heq := hcons tail
        omega

theorem not_closesInside_zero_close
    (hbrackets : dialect.openBracket ≠ dialect.closeBracket) :
    ¬ ClosesInside dialect 0 (dialect.closeBracket :: inner) := by
  intro h
  have hfront := h.front [dialect.closeBracket] (by simp)
  simp [hbrackets.symm] at hfront

theorem findClosingBracket_of_same
    (hbrackets : dialect.openBracket = dialect.closeBracket) (nesting : Nat)
    (text : List Char) : findClosingBracket dialect nesting text = none := by
  induction text generalizing nesting with
  | nil => rfl
  | cons c text ih =>
    rw [findClosingBracket, hbrackets]
    split_ifs <;> simp [ih]

/-- The bracket that the search finds is the first one that balances. -/
theorem findClosingBracket_succ_iff
    (hbrackets : dialect.openBracket ≠ dialect.closeBracket) (n : Nat)
    {text rest : List Char} :
    findClosingBracket dialect (n + 1) text = some (inner, rest) ↔
      text = inner ++ dialect.closeBracket :: rest ∧
        ClosesInside dialect n inner := by
  induction text generalizing n inner with
  | nil => simp [findClosingBracket]
  | cons c text ih =>
    have hcons : (c :: text = inner ++ dialect.closeBracket :: rest) ↔
        (inner = [] ∧ c = dialect.closeBracket ∧ text = rest) ∨
          ∃ inner', inner = c :: inner' ∧
            text = inner' ++ dialect.closeBracket :: rest := by
      cases inner with
      | nil => simp
      | cons d inner => simp [eq_comm (a := c)]
    -- a character that does not close the last bracket
    have hlonger : ∀ m, (if c = dialect.closeBracket then 1 else 0) + m =
          (if c = dialect.openBracket then 1 else 0) + n →
        ¬ (n = 0 ∧ c = dialect.closeBracket) →
        ((findClosingBracket dialect (m + 1) text).map
            (fun (inner, rest) => (c :: inner, rest)) = some (inner, rest) ↔
          c :: text = inner ++ dialect.closeBracket :: rest ∧
            ClosesInside dialect n inner) := by
      intro m hcount hlast
      rw [Option.map_eq_some_iff, hcons]
      constructor
      · rintro ⟨⟨inner', rest'⟩, hfound, heq⟩
        obtain ⟨rfl, rfl⟩ := Prod.mk.inj heq
        obtain ⟨htext, hinside⟩ := (ih m).mp hfound
        exact ⟨Or.inr ⟨inner', rfl, htext⟩,
          (closesInside_cons_iff hcount).mpr hinside⟩
      · rintro ⟨⟨rfl, hc, -⟩ | ⟨inner', rfl, htext⟩, hinside⟩
        · exact absurd ⟨closesInside_nil_iff.mp hinside, hc⟩ hlast
        · exact ⟨(inner', rest), (ih m).mpr ⟨htext,
            (closesInside_cons_iff hcount).mp hinside⟩, rfl⟩
    rw [findClosingBracket]
    split_ifs with hopen hclose hlast
    · have hne : c ≠ dialect.closeBracket := hopen ▸ hbrackets
      apply hlonger (n + 1)
      · rw [if_neg hne, if_pos hopen]
        omega
      · exact fun h => hne h.2
    · obtain rfl : n = 0 := by omega
      rw [hcons]
      constructor
      · intro h
        obtain ⟨rfl, rfl⟩ : [] = inner ∧ text = rest := by simpa using h
        exact ⟨Or.inl ⟨rfl, hclose, rfl⟩, closesInside_nil_iff.mpr rfl⟩
      · rintro ⟨⟨rfl, -, rfl⟩ | ⟨inner', rfl, -⟩, hinside⟩
        · rfl
        · rw [hclose] at hinside
          exact absurd hinside (not_closesInside_zero_close hbrackets)
    · obtain ⟨m, rfl⟩ : ∃ m, n = m + 1 := ⟨n - 1, by omega⟩
      apply hlonger m
      · rw [if_pos hclose, if_neg hopen]
        omega
      · omega
    · apply hlonger n
      · rw [if_neg hclose, if_neg hopen]
      · exact fun h => hclose h.2

theorem findClosingBracket_one_iff {behind rest : List Char} :
    findClosingBracket dialect 1 behind = some (inner, rest) ↔
      Closes dialect behind inner rest := by
  by_cases hbrackets : dialect.openBracket = dialect.closeBracket
  · rw [findClosingBracket_of_same hbrackets]
    constructor
    · intro h
      exact absurd h (by simp)
    · intro h
      exact absurd hbrackets h.different
  · rw [findClosingBracket_succ_iff hbrackets 0]
    constructor
    · rintro ⟨hsplit, hinside⟩
      exact ⟨hsplit, hbrackets, hinside⟩
    · intro h
      exact ⟨h.split, h.inside⟩

theorem findClosingBracket_one_eq_none_iff {behind : List Char} :
    findClosingBracket dialect 1 behind = none ↔
      ∀ inner rest, ¬ Closes dialect behind inner rest := by
  rw [Option.eq_none_iff_forall_ne_some]
  constructor
  · intro h inner rest hcloses
    exact h (inner, rest) (findClosingBracket_one_iff.mpr hcloses)
  · rintro h ⟨inner, rest⟩ hfound
    exact h inner rest (findClosingBracket_one_iff.mp hfound)

end Brackets

/-! ### One turn of the loop -/

section Turns

variable {expand : List Char → ExpansionBudget → List Char × ExpansionBudget}
  {table : VariableTable} {dialect : VariableDialect}
  {expanded text : List Char} {budget : ExpansionBudget}

theorem expandLoop_of_exceeded (hexceeded : budget.exceeded = true) :
    expandLoop expand table dialect expanded text budget =
      (expanded, budget) := by
  rw [expandLoop, if_pos hexceeded]

variable (hbudget : budget.exceeded = false)
include hbudget

theorem expandLoop_nil :
    expandLoop expand table dialect expanded [] budget =
      (expanded, budget) := by
  rw [expandLoop, if_neg (by simp [hbudget])]
  rfl

theorem expandLoop_plain {c : Char}
    (hc : startsReference dialect (c :: text) = none) :
    expandLoop expand table dialect expanded (c :: text) budget =
      expandLoop expand table dialect (expanded ++ [c]) text budget := by
  rw [expandLoop, if_neg (by simp [hbudget])]
  split
  · simp_all
  · rfl

theorem expandLoop_unterminated {behind : List Char}
    (hstart : startsReference dialect text = some behind)
    (hclosing : findClosingBracket dialect 1 behind = none) :
    expandLoop expand table dialect expanded text budget =
      (expanded ++ text, budget) := by
  rw [expandLoop, if_neg (by simp [hbudget])]
  split
  case h_1 found hfound =>
    obtain rfl : behind = found := by simpa [hstart] using hfound
    split
    · rfl
    · simp_all
  · simp_all

theorem expandLoop_reference {behind rawName rest : List Char}
    (hstart : startsReference dialect text = some behind)
    (hclosing : findClosingBracket dialect 1 behind = some (rawName, rest)) :
    expandLoop expand table dialect expanded text budget =
      let named := expand rawName budget
      let replaced := expandReference expand table dialect expanded rawName
        named.1 named.2
      expandLoop expand table dialect replaced.1 rest
        (checkExpandedSize replaced.1 replaced.2) := by
  rw [expandLoop, if_neg (by simp [hbudget])]
  split
  case h_1 found hfound =>
    obtain rfl : behind = found := by simpa [hstart] using hfound
    split
    · simp_all
    case h_2 rawName' rest' hfound' =>
      obtain ⟨rfl, rfl⟩ : rawName = rawName' ∧ rest = rest' := by
        simpa [hclosing] using hfound'
      rfl
  · simp_all

end Turns

theorem startsReference_eq_none_iff {dialect : VariableDialect}
    {text : List Char} :
    startsReference dialect text = none ↔
      ∀ behind, text ≠ '$' :: dialect.openBracket :: behind := by
  rw [Option.eq_none_iff_forall_ne_some]
  exact forall_congr' fun behind => not_congr startsReference_eq_some_iff

@[simp] theorem startsReference_reference (dialect : VariableDialect)
    (behind : List Char) :
    startsReference dialect ('$' :: dialect.openBracket :: behind) =
      some behind :=
  startsReference_eq_some_iff.mpr rfl

theorem checkExpandedSize_of_le {expanded : List Char}
    (hsize : expanded.length ≤ maxExpandedBytes) (budget : ExpansionBudget) :
    checkExpandedSize expanded budget = budget :=
  if_neg (by omega)

theorem checkExpandedSize_eq_iff {expanded : List Char}
    {budget : ExpansionBudget} {left : Nat} :
    checkExpandedSize expanded budget = ⟨left, false⟩ ↔
      expanded.length ≤ maxExpandedBytes ∧ budget = ⟨left, false⟩ := by
  unfold checkExpandedSize
  split_ifs with hsize
  · simp [ExpansionBudget.exceed, hsize]
  · simp [not_lt.mp hsize]

theorem ExpansionBudget.eq_of_not_exceeded {budget : ExpansionBudget}
    (hbudget : budget.exceeded = false) :
    budget = ⟨budget.substitutionsLeft, false⟩ := by
  rw [← hbudget]

/-- A derivation within the limits is what the loop follows. -/
theorem expandLoop_of_expands {table : VariableTable}
    {dialect : VariableDialect} {before : Nat} {text result : List Char}
    {cost : ExpansionCost} (h : Expands table dialect before text result cost) :
    ∀ {levels left : Nat} {expanded : List Char}, before = expanded.length →
      cost.depth ≤ levels → cost.size ≤ maxExpandedBytes →
      expandLoop (expandWithBudget table dialect levels) table dialect expanded
          text ⟨left + cost.substitutions, false⟩ =
        (expanded ++ result, ⟨left, false⟩) := by
  induction h with
  | nil =>
    intro levels left expanded hbefore hdepth hsize
    rw [expandLoop_nil rfl, List.append_nil]
    rfl
  | plain hplain _ ih =>
    intro levels left expanded hbefore hdepth hsize
    rw [expandLoop_plain rfl (startsReference_eq_none_iff.mpr hplain),
      ih (by simp [hbefore]) hdepth hsize, List.append_assoc]
    rfl
  | unterminated hopen =>
    intro levels left expanded hbefore hdepth hsize
    exact expandLoop_unterminated rfl (startsReference_reference _ _)
      (findClosingBracket_one_eq_none_iff.mpr hopen)
  | @undefined before behind rawName rest name nameCost result cost hcloses _
      hvalue _ ihname ihrest =>
      intro levels left expanded hbefore hdepth hsize
      simp only [ExpansionCost.both, ExpansionCost.nested,
        ExpansionCost.reaching, max_le_iff] at hdepth hsize
      obtain ⟨levels, rfl⟩ : ∃ n, levels = n + 1 := ⟨levels - 1, by omega⟩
      have hnamed : expandWithBudget table dialect (levels + 1) rawName
          ⟨left + cost.substitutions + nameCost.substitutions, false⟩ =
            (name, ⟨left + cost.substitutions, false⟩) :=
        ihname rfl (by omega) hsize.1
      have hleft : left + ((nameCost.nested).both ((ExpansionCost.reaching
          (before + (referenceTo dialect rawName).length)).both
            cost)).substitutions =
          left + cost.substitutions + nameCost.substitutions := by
        simp only [ExpansionCost.both, ExpansionCost.nested,
          ExpansionCost.reaching]
        omega
      rw [hleft, expandLoop_reference rfl (startsReference_reference _ _)
        (findClosingBracket_one_iff.mpr hcloses)]
      simp only [hnamed, expandReference, hvalue]
      rw [checkExpandedSize_of_le (by simp; omega),
        ihrest (by simp [hbefore]) (by omega) hsize.2.2, List.append_assoc]
  | @defined before behind rawName rest name nameCost value expandedValue
      valueCost result cost hcloses _ hvalue _ _ ihname ihvalue ihrest =>
      intro levels left expanded hbefore hdepth hsize
      simp only [ExpansionCost.both, ExpansionCost.nested,
        ExpansionCost.substitution, ExpansionCost.reaching, max_le_iff]
        at hdepth hsize
      obtain ⟨levels, rfl⟩ : ∃ n, levels = n + 1 := ⟨levels - 1, by omega⟩
      have hnamed : expandWithBudget table dialect (levels + 1) rawName
          ⟨left + cost.substitutions + valueCost.substitutions + 1 +
            nameCost.substitutions, false⟩ =
            (name, ⟨left + cost.substitutions + valueCost.substitutions + 1,
              false⟩) :=
        ihname rfl (by omega) (by omega)
      have hvalued : expandWithBudget table dialect (levels + 1) value
          ⟨left + cost.substitutions + valueCost.substitutions, false⟩ =
            (expandedValue, ⟨left + cost.substitutions, false⟩) :=
        ihvalue rfl (by omega) (by omega)
      have hleft : left + (nameCost.nested.both
          ((ExpansionCost.substitution.both valueCost.nested).both
            ((ExpansionCost.reaching (before + expandedValue.length)).both
              cost))).substitutions =
          left + cost.substitutions + valueCost.substitutions + 1 +
            nameCost.substitutions := by
        simp only [ExpansionCost.both, ExpansionCost.nested,
          ExpansionCost.substitution, ExpansionCost.reaching]
        omega
      rw [hleft, expandLoop_reference rfl (startsReference_reference _ _)
        (findClosingBracket_one_iff.mpr hcloses)]
      simp only [hnamed, expandReference, hvalue, Nat.add_eq_zero_iff,
        one_ne_zero, and_false, if_false, Nat.add_sub_cancel, hvalued]
      rw [checkExpandedSize_of_le (by simp; omega),
        ihrest (by simp [hbefore]) (by omega) (by omega), List.append_assoc]

/-! ### What the code expands is the expansion -/

/-- A value that was put in without hitting a limit. -/
theorem expandReference_of_value {expand : List Char → ExpansionBudget →
      List Char × ExpansionBudget} {table : VariableTable}
    {dialect : VariableDialect} {expanded rawName name value replaced :
      List Char} {budget : ExpansionBudget} {left : Nat}
    (hvalue : valueOf? table dialect name = some value)
    (hreplaced : expandReference expand table dialect expanded rawName name
      budget = (replaced, ⟨left, false⟩)) :
    let spent : ExpansionBudget :=
      { budget with substitutionsLeft := budget.substitutionsLeft - 1 }
    0 < budget.substitutionsLeft ∧
      expanded ++ (expand value spent).1 = replaced ∧
      (expand value spent).2 = ⟨left, false⟩ := by
  simp only [expandReference, hvalue] at hreplaced
  split_ifs at hreplaced with hleft
  · exact absurd (congrArg (fun outcome => outcome.2.exceeded) hreplaced)
      (by simp [ExpansionBudget.exceed])
  · obtain ⟨htext, hbudget⟩ := Prod.mk.inj hreplaced
    exact ⟨Nat.pos_of_ne_zero hleft, htext, hbudget⟩

/-- A loop that ends without hitting a limit has followed a derivation. -/
theorem expands_of_expandLoop {expand : List Char → ExpansionBudget →
      List Char × ExpansionBudget} {table : VariableTable}
    {dialect : VariableDialect} {levels : Nat}
    (hexpand : ∀ text budget, (expand text budget).2.exceeded = false →
      ∃ cost, Expands table dialect 0 text (expand text budget).1 cost ∧
        budget = ⟨(expand text budget).2.substitutionsLeft +
          cost.substitutions, false⟩ ∧
        cost.depth < levels ∧ cost.size ≤ maxExpandedBytes)
    (expanded text : List Char) (budget : ExpansionBudget) :
    (expandLoop expand table dialect expanded text budget).2.exceeded = false →
    ∃ result cost, (expandLoop expand table dialect expanded text budget).1 =
        expanded ++ result ∧
      Expands table dialect expanded.length text result cost ∧
      budget = ⟨(expandLoop expand table dialect expanded text
        budget).2.substitutionsLeft + cost.substitutions, false⟩ ∧
      cost.depth ≤ levels ∧ cost.size ≤ maxExpandedBytes := by
  induction expanded, text, budget using
    expandLoop.induct expand table dialect with
  | case1 expanded text budget hexceeded =>
    rw [expandLoop_of_exceeded hexceeded]
    intro hended
    exact absurd hended (by simp [hexceeded])
  | case2 expanded text budget hbudget behind hstart hclosing =>
    have hfresh : budget.exceeded = false := by simpa using hbudget
    rw [expandLoop_unterminated hfresh hstart hclosing]
    intro hended
    obtain rfl := startsReference_eq_some_iff.mp hstart
    refine ⟨_, .free, rfl, .unterminated ?_, ?_, Nat.zero_le _, Nat.zero_le _⟩
    · exact findClosingBracket_one_eq_none_iff.mp hclosing
    · exact ExpansionBudget.eq_of_not_exceeded hended
  | case3 expanded text budget hbudget behind hstart rawName rest hclosing name
      nameBudget hname replaced replacedBudget hreplaced ih =>
      have hfresh : budget.exceeded = false := by simpa using hbudget
      rw [expandLoop_reference hfresh hstart hclosing]
      simp only [hname, hreplaced]
      generalize expandLoop expand table dialect replaced rest
        (checkExpandedSize replaced replacedBudget) = ended at ih ⊢
      intro hended
      obtain ⟨result, cost, hresult, hrest, hleft, hdepth, hsize⟩ := ih hended
      obtain ⟨hlength, rfl⟩ := checkExpandedSize_eq_iff.mp hleft
      obtain rfl := startsReference_eq_some_iff.mp hstart
      have hcloses := findClosingBracket_one_iff.mp hclosing
      rw [hresult]
      cases hvalue : valueOf? table dialect name with
      | none =>
        obtain ⟨rfl, rfl⟩ : expanded ++ referenceTo dialect rawName =
            replaced ∧ nameBudget =
              ⟨ended.2.substitutionsLeft + cost.substitutions, false⟩ := by
          simpa [expandReference, hvalue] using hreplaced
        obtain ⟨nameCost, hnamed, hnameLeft, hnameDepth, hnameSize⟩ :=
          hexpand rawName budget (by rw [hname])
        rw [hname] at hnamed hnameLeft
        rw [List.length_append] at hrest hlength
        refine ⟨_, _, by rw [List.append_assoc],
          .undefined hcloses hnamed hvalue hrest, ?_, ?_, ?_⟩
        · rw [hnameLeft]
          simp only [ExpansionCost.both, ExpansionCost.nested,
            ExpansionCost.reaching, ExpansionBudget.mk.injEq, and_true]
          omega
        · simp only [ExpansionCost.both, ExpansionCost.nested,
            ExpansionCost.reaching]
          omega
        · simp only [ExpansionCost.both, ExpansionCost.nested,
            ExpansionCost.reaching]
          omega
      | some value =>
        obtain ⟨hpositive, rfl, hspent⟩ :=
          expandReference_of_value hvalue hreplaced
        obtain ⟨valueCost, hvalued, hvalueLeft, hvalueDepth, hvalueSize⟩ :=
          hexpand value _ (by rw [hspent])
        rw [hspent] at hvalueLeft
        obtain ⟨hspentLeft, hnameFresh⟩ :=
          ExpansionBudget.mk.injEq .. ▸ hvalueLeft
        obtain ⟨nameCost, hnamed, hnameLeft, hnameDepth, hnameSize⟩ :=
          hexpand rawName budget (by rw [hname]; exact hnameFresh)
        rw [hname] at hnamed hnameLeft
        rw [List.length_append] at hrest hlength
        refine ⟨_, _, by rw [List.append_assoc],
          .defined hcloses hnamed hvalue hvalued hrest, ?_, ?_, ?_⟩
        · rw [hnameLeft]
          simp only [ExpansionCost.both, ExpansionCost.nested,
            ExpansionCost.substitution, ExpansionCost.reaching,
            ExpansionBudget.mk.injEq, and_true]
          dsimp only at hspentLeft hpositive ⊢
          omega
        · simp only [ExpansionCost.both, ExpansionCost.nested,
            ExpansionCost.substitution, ExpansionCost.reaching]
          omega
        · simp only [ExpansionCost.both, ExpansionCost.nested,
            ExpansionCost.substitution, ExpansionCost.reaching]
          omega
  | case4 expanded budget hbudget hstart =>
    have hfresh : budget.exceeded = false := by simpa using hbudget
    rw [expandLoop_nil hfresh]
    intro hended
    exact ⟨[], .free, (List.append_nil _).symm, .nil,
      ExpansionBudget.eq_of_not_exceeded hended, Nat.zero_le _,
      Nat.zero_le _⟩
  | case5 expanded budget hbudget c rest hstart ih =>
    have hfresh : budget.exceeded = false := by simpa using hbudget
    rw [expandLoop_plain hfresh hstart]
    intro hended
    obtain ⟨result, cost, hresult, hrest, hleft, hbounds⟩ := ih hended
    rw [List.length_append] at hrest
    refine ⟨c :: result, cost, ?_, .plain ?_ hrest, hleft, hbounds⟩
    · rw [hresult, List.append_assoc, List.singleton_append]
    · exact startsReference_eq_none_iff.mp hstart

theorem expands_of_expandWithBudget (table : VariableTable)
    (dialect : VariableDialect) (levels : Nat) :
    ∀ text budget,
      (expandWithBudget table dialect levels text budget).2.exceeded = false →
      ∃ cost, Expands table dialect 0 text
          (expandWithBudget table dialect levels text budget).1 cost ∧
        budget = ⟨(expandWithBudget table dialect levels text
          budget).2.substitutionsLeft + cost.substitutions, false⟩ ∧
        cost.depth < levels ∧ cost.size ≤ maxExpandedBytes := by
  induction levels with
  | zero =>
    intro text budget hended
    exact absurd hended Bool.noConfusion
  | succ levels ih =>
    intro text budget hended
    obtain ⟨result, cost, hresult, hexpands, hleft, hdepth, hsize⟩ :=
      expands_of_expandLoop ih [] text budget hended
    refine ⟨cost, ?_, hleft, by omega, hsize⟩
    rw [expandWithBudget, hresult]
    exact hexpands

/-! ## The whole function -/

section Unchanged

variable {table : VariableTable} {dialect : VariableDialect} {before : Nat}
  {text result : List Char} {cost : ExpansionCost}

theorem Expands.eq_of_no_value
    (hexpands : Expands table dialect before text result cost)
    (hnone : ∀ name, valueOf? table dialect name = none) : result = text := by
  induction hexpands with
  | nil => rfl
  | plain _ _ ih => rw [ih]
  | unterminated _ => rfl
  | undefined hcloses _ _ _ _ ihrest =>
    rw [ihrest, hcloses.split, referenceTo]
    simp
  | defined _ _ hvalue =>
    rw [hnone] at hvalue
    exact absurd hvalue (by simp)

theorem Expands.eq_of_no_dollar
    (hexpands : Expands table dialect before text result cost)
    (hdollar : '$' ∉ text) : result = text := by
  induction hexpands with
  | nil => rfl
  | plain _ _ ih => rw [ih fun h => hdollar (List.mem_cons_of_mem _ h)]
  | unterminated _ => rfl
  | undefined => exact absurd List.mem_cons_self hdollar
  | defined => exact absurd List.mem_cons_self hdollar

theorem valueOf?_of_isEmpty (hempty : table.isEmpty = true)
    (name : List Char) : valueOf? table dialect name = none := by
  obtain rfl := Std.ExtTreeMap.isEmpty_iff.mp hempty
  rfl

end Unchanged

/-- A text without the start of a reference is copied. -/
theorem expandLoop_of_no_reference
    {expand : List Char → ExpansionBudget → List Char × ExpansionBudget}
    {table : VariableTable} {dialect : VariableDialect} {text : List Char}
    {budget : ExpansionBudget} (hbudget : budget.exceeded = false)
    (hnone : ¬['$', dialect.openBracket] <:+: text) (expanded : List Char) :
    expandLoop expand table dialect expanded text budget =
      (expanded ++ text, budget) := by
  induction text generalizing expanded with
  | nil => rw [expandLoop_nil hbudget, List.append_nil]
  | cons c text ih =>
    have hplain : startsReference dialect (c :: text) = none := by
      rw [startsReference_eq_none_iff]
      intro behind heq
      exact hnone ⟨[], behind, by rw [heq]; rfl⟩
    rw [expandLoop_plain hbudget hplain,
      ih (fun h => hnone (h.trans (List.suffix_cons c text).isInfix)),
      List.append_assoc, List.singleton_append]

theorem expandVariables_of_no_reference {text : String}
    {dialect : VariableDialect}
    (hnone : ¬['$', dialect.openBracket] <:+: text.toList)
    (table : VariableTable) :
    expandVariables text table dialect = text := by
  rw [expandVariables]
  split_ifs with hplain
  · rfl
  · simp [expandWithBudget, expandLoop_of_no_reference _ hnone]

/-- Within the limits `expand_variables` returns the reference expansion;
when there is no expansion within them, it returns the text as it was. -/
theorem expandVariables_spec (text : String) (table : VariableTable)
    (dialect : VariableDialect) :
    (∀ result cost, Expands table dialect 0 text.toList result cost →
      cost.WithinLimits →
      expandVariables text table dialect = String.ofList result) ∧
    ((¬ ∃ result cost, Expands table dialect 0 text.toList result cost ∧
      cost.WithinLimits) → expandVariables text table dialect = text) := by
  constructor
  · intro result cost hexpands hlimits
    rw [expandVariables]
    split_ifs with hplain
    · have hsame : result = text.toList := by
        rcases hplain with hempty | hdollar
        · exact hexpands.eq_of_no_value (valueOf?_of_isEmpty hempty)
        · exact hexpands.eq_of_no_dollar hdollar
      rw [hsame, String.ofList_toList]
    · obtain ⟨left, hleft⟩ : ∃ left,
          maxSubstitutions = left + cost.substitutions :=
        ⟨maxSubstitutions - cost.substitutions, by
          have := hlimits.substitutions
          omega⟩
      have hrun : expandWithBudget table dialect (maxExpansionDepth + 1)
          text.toList ⟨left + cost.substitutions, false⟩ =
            (result, ⟨left, false⟩) :=
        expandLoop_of_expands hexpands rfl hlimits.depth hlimits.size
      rw [← hleft] at hrun
      simp only [hrun]
      rfl
  · intro hnone
    rw [expandVariables]
    split_ifs with hplain
    · rfl
    · have hended := expands_of_expandWithBudget table dialect
        (maxExpansionDepth + 1) text.toList {}
      obtain ⟨⟨expanded, budget⟩, hrun⟩ : ∃ outcome, expandWithBudget table
        dialect (maxExpansionDepth + 1) text.toList {} = outcome := ⟨_, rfl⟩
      rw [hrun] at hended ⊢
      by_cases hexceeded : budget.exceeded = true
      · exact if_pos hexceeded
      · obtain ⟨cost, hexpands, hleft, hdepth, hsize⟩ :=
          hended (by simpa using hexceeded)
        have hspent := congrArg ExpansionBudget.substitutionsLeft hleft
        dsimp only at hspent
        exact absurd ⟨_, cost, hexpands, by omega, by omega, hsize⟩ hnone

end Bomwerk.Core
