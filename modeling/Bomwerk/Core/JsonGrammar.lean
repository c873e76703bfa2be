import Mathlib.Data.List.Basic
import Mathlib.Data.Nat.Basic
import Mathlib.Order.Lattice

/-!
# The grammar of JSON texts

RFC 8259: values with whitespace between their tokens.  Of a value the grammar
keeps which arrays and objects it is made of; strings, numbers and literals are
scalars.
-/

namespace Bomwerk.Core.JsonGrammar

/-- The nesting of a value.  A container is an array of its items or an object
of the values of its members. -/
inductive Tree
  | scalar
  | container (parts : List Tree)

def isBlank (c : Char) : Bool :=
  c = ' ' ∨ c = '\t' ∨ c = '\n' ∨ c = '\r'

/-- `ws` -/
def IsBlank (text : List Char) : Prop := ∀ c ∈ text, isBlank c = true

def isHexDigit (c : Char) : Bool :=
  c.isDigit ∨ ('a' ≤ c ∧ c ≤ 'f') ∨ ('A' ≤ c ∧ c ≤ 'F')

/-- `*char`, the text between the quotes of a string. -/
inductive StringBody : List Char → Prop
  | nil : StringBody []
  | unescaped {c : Char} {text : List Char} (hcontrol : 0x20 ≤ c.toNat)
      (hquote : c ≠ '"') (hslash : c ≠ '\\') (htext : StringBody text) :
      StringBody (c :: text)
  | short {c : Char} {text : List Char}
      (hc : c ∈ ['"', '\\', '/', 'b', 'f', 'n', 'r', 't'])
      (htext : StringBody text) : StringBody ('\\' :: c :: text)
  | unicode {digits text : List Char} (hlength : digits.length = 4)
      (hdigits : ∀ c ∈ digits, isHexDigit c = true)
      (htext : StringBody text) :
      StringBody ('\\' :: 'u' :: (digits ++ text))

/-- `1*DIGIT` -/
def IsDigits (text : List Char) : Prop :=
  text ≠ [] ∧ ∀ c ∈ text, c.isDigit = true

/-- `int` -/
def IsInt (text : List Char) : Prop :=
  text = ['0'] ∨ (IsDigits text ∧ text.head? ≠ some '0')

/-- `frac`, if it is there. -/
def IsFraction (text : List Char) : Prop :=
  text = [] ∨ ∃ digits, IsDigits digits ∧ text = '.' :: digits

/-- `exp`, if it is there. -/
def IsExponent (text : List Char) : Prop :=
  text = [] ∨ ∃ e sign digits, (e = 'e' ∨ e = 'E') ∧
    (sign = [] ∨ sign = ['+'] ∨ sign = ['-']) ∧ IsDigits digits ∧
    text = e :: (sign ++ digits)

/-- `number` -/
def IsNumber (text : List Char) : Prop :=
  ∃ minus int fraction exponent, (minus = [] ∨ minus = ['-']) ∧ IsInt int ∧
    IsFraction fraction ∧ IsExponent exponent ∧
    text = minus ++ (int ++ (fraction ++ exponent))

def IsLiteral (text : List Char) : Prop :=
  text = "null".toList ∨ text = "true".toList ∨ text = "false".toList

/-- What a piece of a text spells.  An element is a value with the whitespace
around it, a member a name with its element. -/
inductive Part
  | value (tree : Tree)
  | element (tree : Tree)
  | items (trees : List Tree)
  | member (tree : Tree)
  | members (trees : List Tree)

inductive Derives : Part → List Char → Prop
  | string {text : List Char} (hbody : StringBody text) :
      Derives (.value .scalar) ('"' :: (text ++ ['"']))
  | number {text : List Char} (hnumber : IsNumber text) :
      Derives (.value .scalar) text
  | literal {text : List Char} (hliteral : IsLiteral text) :
      Derives (.value .scalar) text
  | emptyArray {blank : List Char} (hblank : IsBlank blank) :
      Derives (.value (.container [])) ('[' :: (blank ++ [']']))
  | array {text : List Char} {trees : List Tree}
      (hitems : Derives (.items trees) text) :
      Derives (.value (.container trees)) ('[' :: (text ++ [']']))
  | emptyObject {blank : List Char} (hblank : IsBlank blank) :
      Derives (.value (.container [])) ('{' :: (blank ++ ['}']))
  | object {text : List Char} {trees : List Tree}
      (hmembers : Derives (.members trees) text) :
      Derives (.value (.container trees)) ('{' :: (text ++ ['}']))
  | element {before text after : List Char} {tree : Tree}
      (hbefore : IsBlank before) (hvalue : Derives (.value tree) text)
      (hafter : IsBlank after) :
      Derives (.element tree) (before ++ (text ++ after))
  | lastItem {text : List Char} {tree : Tree}
      (hitem : Derives (.element tree) text) : Derives (.items [tree]) text
  | item {text more : List Char} {tree : Tree} {trees : List Tree}
      (hitem : Derives (.element tree) text)
      (hmore : Derives (.items trees) more) :
      Derives (.items (tree :: trees)) (text ++ ',' :: more)
  | member {before name between text : List Char} {tree : Tree}
      (hbefore : IsBlank before) (hname : StringBody name)
      (hbetween : IsBlank between) (hvalue : Derives (.element tree) text) :
      Derives (.member tree)
        (before ++ '"' :: (name ++ '"' :: (between ++ ':' :: text)))
  | lastMember {text : List Char} {tree : Tree}
      (hmember : Derives (.member tree) text) :
      Derives (.members [tree]) text
  | memberAnd {text more : List Char} {tree : Tree} {trees : List Tree}
      (hmember : Derives (.member tree) text)
      (hmore : Derives (.members trees) more) :
      Derives (.members (tree :: trees)) (text ++ ',' :: more)

/-- `JSON-text` -/
def IsJsonText (tree : Tree) (text : List Char) : Prop :=
  Derives (.element tree) text

/-- A value that occurs in another one, and the number of arrays and objects it
is nested in there. -/
inductive Occurs : Tree → Tree → Nat → Prop
  | here (tree : Tree) : Occurs tree tree 0
  | inside {value part : Tree} {parts : List Tree} {levels : Nat}
      (hpart : part ∈ parts) (hoccurs : Occurs part value levels) :
      Occurs (.container parts) value (levels + 1)

mutual

/-- The longest chain of arrays and objects inside one another. -/
def Tree.depth : Tree → Nat
  | .scalar => 0
  | .container parts => depthOf parts + 1

def depthOf : List Tree → Nat
  | [] => 0
  | tree :: trees => max tree.depth (depthOf trees)

end

theorem depthOf_le_iff {trees : List Tree} {n : Nat} :
    depthOf trees ≤ n ↔ ∀ tree ∈ trees, tree.depth ≤ n := by
  induction trees with
  | nil => simp [depthOf]
  | cons tree trees ih => simp [depthOf, ih]

theorem exists_depth_eq_of_pos {trees : List Tree} (hpos : 0 < depthOf trees) :
    ∃ tree ∈ trees, tree.depth = depthOf trees := by
  induction trees with
  | nil => simp [depthOf] at hpos
  | cons tree trees ih =>
    rcases Nat.le_total (depthOf trees) tree.depth with hle | hle
    · exact ⟨tree, by simp, by simp [depthOf, hle]⟩
    · have hdepth : depthOf (tree :: trees) = depthOf trees := by
        simp [depthOf, hle]
      obtain ⟨other, hother, heq⟩ := ih (hdepth ▸ hpos)
      exact ⟨other, by simp [hother], hdepth ▸ heq⟩

theorem Occurs.add_depth_le {tree value : Tree} {levels : Nat}
    (hoccurs : Occurs tree value levels) : levels + value.depth ≤ tree.depth := by
  induction hoccurs with
  | here => omega
  | @inside value part parts levels hpart _ ih =>
    have hle := depthOf_le_iff.mp (le_refl (depthOf parts)) part hpart
    simp only [Tree.depth]
    omega

/-- The innermost container of the longest chain. -/
theorem exists_occurs_container (n : Nat) :
    ∀ tree : Tree, tree.depth = n + 1 →
      ∃ parts, Occurs tree (.container parts) n := by
  induction n with
  | zero =>
    intro tree hdepth
    cases tree with
    | scalar => simp [Tree.depth] at hdepth
    | container parts => exact ⟨parts, .here _⟩
  | succ n ih =>
    intro tree hdepth
    cases tree with
    | scalar => simp [Tree.depth] at hdepth
    | container parts =>
      simp only [Tree.depth, Nat.add_right_cancel_iff] at hdepth
      have hpos : 0 < depthOf parts := by omega
      obtain ⟨part, hpart, heq⟩ := exists_depth_eq_of_pos hpos
      obtain ⟨inner, hinner⟩ := ih part (by omega)
      exact ⟨inner, .inside hpart hinner⟩

theorem lt_depth_iff {tree : Tree} {n : Nat} :
    n < tree.depth ↔
      ∃ parts levels, Occurs tree (.container parts) levels ∧ n ≤ levels := by
  constructor
  · intro hlt
    obtain ⟨parts, hoccurs⟩ :=
      exists_occurs_container (tree.depth - 1) tree (by omega)
    exact ⟨parts, tree.depth - 1, hoccurs, by omega⟩
  · rintro ⟨parts, levels, hoccurs, hle⟩
    have h := hoccurs.add_depth_le
    simp only [Tree.depth] at h
    omega

end Bomwerk.Core.JsonGrammar
