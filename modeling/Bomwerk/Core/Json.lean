import Mathlib.Data.String.Basic
import Mathlib.Order.Lattice
import Mathlib.Data.Nat.Basic

/-!
# JSON values

`nlohmann::json` as the code uses it.  An object is a `std::map`, so its
members are kept in key order and `set` puts a member in its place.  A byte
string is seen through the library's parser: `JsonText` is the value it stands
for, or nothing when it is not JSON.
-/

namespace Bomwerk.Core

inductive Json
  | null
  | boolean (value : Bool)
  | integer (value : Int)
  | real (literal : String)
  | string (value : String)
  | array (items : List Json)
  | object (members : List (String × Json))
  deriving Repr

namespace Json

/-! ## Members of an object -/

/-- `object[key] = value` on the members of an object. -/
def setMember (key : String) (value : Json) :
    List (String × Json) → List (String × Json)
  | [] => [(key, value)]
  | (k, v) :: members =>
    if key < k then (key, value) :: (k, v) :: members
    else if key = k then (key, value) :: members
    else (k, v) :: setMember key value members

/-- `value[key] = member`; `null` becomes an object first. -/
def set (document : Json) (key : String) (value : Json) : Json :=
  match document with
  | object members => object (setMember key value members)
  | null => object [(key, value)]
  | other => other

/-- `erase(key)`. -/
def erase (document : Json) (key : String) : Json :=
  match document with
  | object members => object (members.filter (·.1 ≠ key))
  | other => other

/-- `find(key)`; nothing for a value that is not an object. -/
def find? (document : Json) (key : String) : Option Json :=
  match document with
  | object members => members.lookup key
  | _ => none

def contains (document : Json) (key : String) : Bool :=
  (document.find? key).isSome

def isObject : Json → Bool
  | object _ => true
  | _ => false

def isArray : Json → Bool
  | array _ => true
  | _ => false

def isString : Json → Bool
  | string _ => true
  | _ => false

/-- The elements of an array; none for any other value. -/
def items : Json → List Json
  | array items => items
  | _ => []

/-- The text of a string; nothing for any other value. -/
def asString? : Json → Option String
  | string text => some text
  | _ => none

/-- `node.find(key)` when it is a string. -/
def findString? (document : Json) (key : String) : Option String :=
  (document.find? key).bind asString?

/-- `node.find(key)` when it is an array. -/
def findArray? (document : Json) (key : String) : Option (List Json) :=
  match document.find? key with
  | some (array items) => some items
  | _ => none

theorem mapM_eq_some_map {α β : Type*} {read : α → Option β} {value : α → β}
    {items : List α} (hread : ∀ item ∈ items, read item = some (value item)) :
    items.mapM read = some (items.map value) := by
  induction items with
  | nil => rfl
  | cons item items ih =>
    rw [List.mapM_cons, hread item (by simp),
      ih fun other hother => hread other (by simp [hother])]
    rfl

theorem mapM_asString?_string (texts : List String) :
    texts.mapM (asString? ∘ string) = some texts := by
  have hread : ∀ text ∈ texts, (asString? ∘ string) text = some (id text) := by
    intro text htext
    rfl
  rw [mapM_eq_some_map hread, List.map_id]

theorem lookup_setMember_self (key : String) (value : Json)
    (members : List (String × Json)) :
    (setMember key value members).lookup key = some value := by
  induction members with
  | nil => simp [setMember]
  | cons member members ih =>
    obtain ⟨k, v⟩ := member
    unfold setMember
    split_ifs with hlt heq
    · simp
    · simp
    · simpa [List.lookup_cons, beq_eq_false_iff_ne.mpr heq] using ih

theorem lookup_setMember_of_ne {key other : String} (hne : other ≠ key)
    (value : Json) (members : List (String × Json)) :
    (setMember key value members).lookup other = members.lookup other := by
  induction members with
  | nil => simp [setMember, List.lookup_cons, beq_eq_false_iff_ne.mpr hne]
  | cons member members ih =>
    obtain ⟨k, v⟩ := member
    unfold setMember
    split_ifs with hlt heq
    · simp [List.lookup_cons, beq_eq_false_iff_ne.mpr hne]
    · subst heq
      simp [List.lookup_cons, beq_eq_false_iff_ne.mpr hne]
    · simp [List.lookup_cons, ih]

@[simp] theorem find?_set_object (members : List (String × Json))
    (key other : String) (value : Json) :
    ((object members).set key value).find? other =
      if other = key then some value else (object members).find? other := by
  split_ifs with h
  · subst h
    exact lookup_setMember_self other value members
  · exact lookup_setMember_of_ne h value members

theorem find?_erase_self (members : List (String × Json)) (key : String) :
    ((object members).erase key).find? key = none := by
  simp only [erase, find?, List.lookup_eq_none_iff]
  intro member hmember
  have hkey : member.1 ≠ key := by
    simpa using (List.mem_filter.mp hmember).2
  simpa using hkey.symm

theorem find?_erase_of_ne (members : List (String × Json))
    {key other : String} (hne : other ≠ key) :
    ((object members).erase key).find? other =
      (object members).find? other := by
  change (members.filter (·.1 ≠ key)).lookup other = members.lookup other
  induction members with
  | nil => simp
  | cons member members ih =>
    obtain ⟨k, v⟩ := member
    by_cases hk : k = key
    · subst hk
      simpa [List.lookup_cons, beq_eq_false_iff_ne.mpr hne] using ih
    · simp only [List.filter_cons, ne_eq, hk, not_false_eq_true,
        decide_true, if_true, List.lookup_cons]
      rw [← ih]

theorem find?_set {document : Json} (hobject : document.isObject = true)
    (key other : String) (value : Json) :
    (document.set key value).find? other =
      if other = key then some value else document.find? other := by
  cases document with
  | object members => exact find?_set_object members key other value
  | _ => simp [isObject] at hobject

theorem find?_erase (document : Json) (key other : String) :
    (document.erase key).find? other =
      if other = key then none else document.find? other := by
  cases document with
  | object members =>
    split_ifs with h
    · subst h
      exact find?_erase_self members other
    · exact find?_erase_of_ne members h
  | _ => simp [erase, find?]

theorem isObject_set {document : Json} (hobject : document.isObject = true)
    (key : String) (value : Json) :
    (document.set key value).isObject = true := by
  cases document with
  | object members => rfl
  | _ => simp [isObject] at hobject

theorem isObject_erase (document : Json) (key : String) :
    (document.erase key).isObject = document.isObject := by
  cases document <;> rfl

/-- `if (condition) document[key] = value`. -/
def setIf (document : Json) (condition : Bool) (key : String) (value : Json) :
    Json :=
  if condition then document.set key value else document

/-- Values on which `operator[]` with a key works: an object, or `null`, which
it turns into one. -/
def acceptsMembers : Json → Bool
  | object _ => true
  | null => true
  | _ => false

@[simp] theorem acceptsMembers_null : null.acceptsMembers = true := by
  simp [acceptsMembers]

@[simp] theorem acceptsMembers_set (document : Json) (key : String)
    (value : Json) :
    (document.set key value).acceptsMembers = document.acceptsMembers := by
  cases document <;> simp [acceptsMembers, set]

@[simp] theorem acceptsMembers_setIf (document : Json) (condition : Bool)
    (key : String) (value : Json) :
    (document.setIf condition key value).acceptsMembers =
      document.acceptsMembers := by
  cases condition <;> simp [setIf]

@[simp] theorem isObject_set_eq (document : Json) (key : String)
    (value : Json) :
    (document.set key value).isObject = document.acceptsMembers := by
  cases document <;> simp [acceptsMembers, set, isObject]

@[simp] theorem isObject_setIf (document : Json) (condition : Bool)
    (key : String) (value : Json) :
    (document.setIf condition key value).isObject =
      if condition then document.acceptsMembers else document.isObject := by
  cases condition <;> simp [setIf]

@[simp] theorem find?_null (key : String) : null.find? key = none := rfl

@[simp] theorem find?_set_of_acceptsMembers {document : Json}
    (haccepts : document.acceptsMembers = true) (key other : String)
    (value : Json) :
    (document.set key value).find? other =
      if other = key then some value else document.find? other := by
  cases document with
  | object members => exact find?_set_object members key other value
  | null =>
    by_cases h : other = key
    · simp [set, find?, h]
    · simp [set, find?, List.lookup_cons, h, beq_eq_false_iff_ne.mpr h]
  | _ => simp [acceptsMembers] at haccepts

@[simp] theorem find?_setIf {document : Json}
    (haccepts : document.acceptsMembers = true) (condition : Bool)
    (key other : String) (value : Json) :
    (document.setIf condition key value).find? other =
      if condition ∧ other = key then some value
      else document.find? other := by
  cases condition <;> simp [setIf, haccepts]

/-! ## Nesting depth -/

mutual

/-- The number of arrays and objects around the innermost value. -/
def depth : Json → Nat
  | array items => itemsDepth items + 1
  | object members => membersDepth members + 1
  | _ => 0

def itemsDepth : List Json → Nat
  | [] => 0
  | item :: items => max (depth item) (itemsDepth items)

def membersDepth : List (String × Json) → Nat
  | [] => 0
  | (_, value) :: members => max (depth value) (membersDepth members)

end

theorem itemsDepth_le_iff {items : List Json} {n : Nat} :
    itemsDepth items ≤ n ↔ ∀ item ∈ items, item.depth ≤ n := by
  induction items with
  | nil => simp [itemsDepth]
  | cons item items ih => simp [itemsDepth, ih]

theorem membersDepth_le_iff {members : List (String × Json)} {n : Nat} :
    membersDepth members ≤ n ↔ ∀ member ∈ members, member.2.depth ≤ n := by
  induction members with
  | nil => simp [membersDepth]
  | cons member members ih => simp [membersDepth, ih]

theorem depth_lt_of_mem {items : List Json} {item : Json}
    (hitem : item ∈ items) : item.depth < (array items).depth := by
  have h := itemsDepth_le_iff.mp (le_refl (itemsDepth items)) item hitem
  simp only [depth]
  omega

theorem depth_lt_of_find? {document value : Json} {key : String}
    (hfind : document.find? key = some value) :
    value.depth < document.depth := by
  cases document with
  | object members =>
    have hmem : (key, value) ∈ members := by
      obtain ⟨front, back, heq, -⟩ := List.lookup_eq_some_iff.mp hfind
      simp [heq]
    have h : value.depth ≤ membersDepth members :=
      membersDepth_le_iff.mp (le_refl _) (key, value) hmem
    simp only [depth]
    omega
  | _ => simp [find?] at hfind

theorem mem_setMember {key : String} {value : Json}
    {members : List (String × Json)} {member : String × Json}
    (hmember : member ∈ setMember key value members) :
    member = (key, value) ∨ member ∈ members := by
  induction members with
  | nil => simpa [setMember] using hmember
  | cons head members ih =>
    obtain ⟨k, v⟩ := head
    unfold setMember at hmember
    split_ifs at hmember
    · simpa using hmember
    · rcases List.mem_cons.mp hmember with h | h
      · exact Or.inl h
      · exact Or.inr (List.mem_cons_of_mem _ h)
    · rcases List.mem_cons.mp hmember with h | h
      · exact Or.inr (by simp [h])
      · exact (ih h).imp_right (List.mem_cons_of_mem _)

theorem depth_set_object_le {members : List (String × Json)} {key : String}
    {value : Json} {n : Nat} (hdocument : (object members).depth ≤ n)
    (hvalue : value.depth + 1 ≤ n) :
    ((object members).set key value).depth ≤ n := by
  obtain ⟨m, rfl⟩ : ∃ m, n = m + 1 := ⟨n - 1, by omega⟩
  simp only [set, depth, Nat.add_le_add_iff_right] at hdocument hvalue ⊢
  rw [membersDepth_le_iff] at hdocument ⊢
  intro member hmember
  rcases mem_setMember hmember with rfl | hmem
  · exact hvalue
  · exact hdocument member hmem

theorem depth_erase_le (document : Json) (key : String) :
    (document.erase key).depth ≤ document.depth := by
  cases document with
  | object members =>
    simp only [erase, depth, Nat.add_le_add_iff_right, membersDepth_le_iff]
    intro member hmember
    exact membersDepth_le_iff.mp (le_refl _) member
      (List.mem_filter.mp hmember).1
  | _ => exact le_refl _

theorem depth_set_le {document value : Json} {n : Nat}
    (hdocument : document.depth ≤ n) (hvalue : value.depth + 1 ≤ n)
    (key : String) : (document.set key value).depth ≤ n := by
  cases document with
  | object members => exact depth_set_object_le hdocument hvalue
  | null => simpa [set, depth, membersDepth] using hvalue
  | _ => exact hdocument

theorem depth_setIf_le {document value : Json} {n : Nat}
    (hdocument : document.depth ≤ n) (hvalue : value.depth + 1 ≤ n)
    (condition : Bool) (key : String) :
    (document.setIf condition key value).depth ≤ n := by
  cases condition
  · exact hdocument
  · exact depth_set_le hdocument hvalue key

end Json

/-- A byte string as the JSON library sees it: the value it parses to, nothing
when it is not JSON. -/
abbrev JsonText := Option Json

def maxJsonNestingDepth : Nat := 100

/-- `exceeds_json_nesting_depth(text, kMaxJsonNestingDepth)` for a text that is
JSON; the scan counts the brackets outside strings. -/
def exceedsJsonNestingDepth (document : Json) : Bool :=
  maxJsonNestingDepth < document.depth

/-- `parse_bounded_json`: nothing stands for a discarded value. -/
def parseBoundedJson (text : JsonText) : Option Json :=
  text.bind fun document =>
    if exceedsJsonNestingDepth document then none else some document

def Json.dump (document : Json) : JsonText := some document

theorem parseBoundedJson_eq_some_iff {text : JsonText} {document : Json} :
    parseBoundedJson text = some document ↔
      text = some document ∧ document.depth ≤ maxJsonNestingDepth := by
  cases text with
  | none => simp [parseBoundedJson]
  | some parsed =>
    by_cases h : maxJsonNestingDepth < parsed.depth
    · simp only [parseBoundedJson, exceedsJsonNestingDepth, h,
        Option.bind_some, decide_true, if_true, reduceCtorEq, false_iff,
        Option.some.injEq, not_and, not_le]
      rintro rfl
      exact h
    · simp only [parseBoundedJson, exceedsJsonNestingDepth, h,
        Option.bind_some, decide_false, Bool.false_eq_true, if_false,
        Option.some.injEq, iff_self_and]
      rintro rfl
      exact not_lt.mp h

theorem parseBoundedJson_dump {document : Json}
    (hdepth : document.depth ≤ maxJsonNestingDepth) :
    parseBoundedJson document.dump = some document :=
  parseBoundedJson_eq_some_iff.mpr ⟨rfl, hdepth⟩

end Bomwerk.Core
