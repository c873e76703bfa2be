import Mathlib.Data.List.Nodup
import Mathlib.Data.String.Basic

/-!
# Numbered keys

Keys that are given names in order, each name made of a number.  As long as the
keys are distinct and the names are too, each key is found under one name and
each name belongs to one key.
-/

namespace Bomwerk.Support

variable {α β : Type*}

/-- The keys with their names, counted from `first`. -/
def numbered (name : Nat → β) (first : Nat) (keys : List α) : List (α × β) :=
  (keys.zipIdx first).map fun entry => (entry.1, name entry.2)

variable {name : Nat → β} {first : Nat} {keys : List α} {key : α} {value : β}

theorem map_fst_numbered : (numbered name first keys).map Prod.fst = keys := by
  rw [numbered, List.map_map]
  exact List.zipIdx_map_fst first keys

theorem map_snd_numbered :
    (numbered name first keys).map Prod.snd =
      (List.range' first keys.length).map name := by
  rw [numbered, List.map_map, ← List.zipIdx_map_snd first keys, List.map_map]
  rfl

theorem exists_of_mem_numbered (hmem : (key, value) ∈ numbered name first keys) :
    ∃ number, value = name number := by
  obtain ⟨entry, -, heq⟩ := List.mem_map.mp hmem
  rw [Prod.mk.injEq] at heq
  exact ⟨entry.2, heq.2.symm⟩

theorem nodup_map_snd_numbered (hname : Function.Injective name) :
    ((numbered name first keys).map Prod.snd).Nodup := by
  rw [map_snd_numbered]
  exact List.Nodup.map hname List.nodup_range'

/-- Every key is found. -/
theorem exists_lookup_numbered [BEq α] [LawfulBEq α] (hkey : key ∈ keys) :
    ∃ value, (numbered name first keys).lookup key = some value ∧
      (key, value) ∈ numbered name first keys := by
  rw [← @map_fst_numbered α β name first keys] at hkey
  cases hlookup : (numbered name first keys).lookup key with
  | none =>
    obtain ⟨entry, hentry, heq⟩ := List.mem_map.mp hkey
    have hne := List.lookup_eq_none_iff.mp hlookup entry hentry
    rw [heq, bne_self_eq_false] at hne
    exact absurd hne Bool.false_ne_true
  | some value =>
    obtain ⟨front, back, heq, -⟩ := List.lookup_eq_some_iff.mp hlookup
    refine ⟨value, rfl, ?_⟩
    rw [heq]
    exact List.mem_append_right _ List.mem_cons_self

/-- Where no two entries share a name, one entry carries the name of an
entry. -/
theorem filter_snd_eq_singleton [DecidableEq β] {entries : List (α × β)}
    (hnodup : (entries.map Prod.snd).Nodup)
    (hmem : (key, value) ∈ entries) :
    (entries.filter fun entry => entry.2 = value) = [(key, value)] := by
  obtain ⟨front, back, rfl⟩ := List.append_of_mem hmem
  rw [List.map_append, List.map_cons, List.nodup_append,
    List.nodup_cons] at hnodup
  obtain ⟨-, ⟨hback, -⟩, hdisjoint⟩ := hnodup
  have hfront : (front.filter fun entry => entry.2 = value) = [] := by
    rw [List.filter_eq_nil_iff]
    intro entry hentry heq
    have hsnd : entry.2 ∈ front.map Prod.snd := List.mem_map_of_mem hentry
    exact hdisjoint _ hsnd _ List.mem_cons_self (of_decide_eq_true heq)
  have hrest : (back.filter fun entry => entry.2 = value) = [] := by
    rw [List.filter_eq_nil_iff]
    intro entry hentry heq
    have hsnd : entry.2 ∈ back.map Prod.snd := List.mem_map_of_mem hentry
    rw [of_decide_eq_true heq] at hsnd
    exact hback hsnd
  rw [List.filter_append, hfront, List.filter_cons, hrest]
  simp

end Bomwerk.Support
