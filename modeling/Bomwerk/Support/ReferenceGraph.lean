import Mathlib.Data.List.Count
import Mathlib.Data.List.Nodup

/-!
# Graphs given by references

A document that names its nodes by references and lists, for each, what it
refers to.  One node may be the root of the graph.
-/

namespace Bomwerk.Support

/-- A root, the other nodes, and for some nodes what they depend on. -/
structure ReferenceGraph (α : Type*) where
  root : Option α
  nodes : List α
  entries : List (α × List α)

namespace ReferenceGraph

variable {α : Type*}

/-- Every reference that stands for a node. -/
def references (graph : ReferenceGraph α) : List α :=
  graph.root.toList ++ graph.nodes

/-- What the entries of one node depend on. -/
def targetsOf [DecidableEq α] (graph : ReferenceGraph α) (node : α) : List α :=
  (graph.entries.filter (·.1 = node)).flatMap Prod.snd

/-- References are unique and resolve, every node has one entry, and the root
has one edge to each. -/
structure Sound [DecidableEq α] (graph : ReferenceGraph α) : Prop where
  distinct : graph.references.Nodup
  entry_resolves : ∀ entry ∈ graph.entries, entry.1 ∈ graph.references
  target_resolves : ∀ entry ∈ graph.entries, ∀ target ∈ entry.2,
    target ∈ graph.references
  one_entry : ∀ node ∈ graph.nodes, (graph.entries.map Prod.fst).count node = 1
  one_edge : ∀ root ∈ graph.root, ∀ node ∈ graph.nodes,
    (graph.targetsOf root).count node = 1

/-- The graph in which the root depends on every node, and no node on any. -/
def star (root : Option α) (nodes : List α) : ReferenceGraph α where
  root := root
  nodes := nodes
  entries := root.toList.map (·, nodes) ++ nodes.map (·, [])

@[simp] theorem references_star (root : Option α) (nodes : List α) :
    (star root nodes).references = root.toList ++ nodes := rfl

theorem map_fst_entries_star (root : Option α) (nodes : List α) :
    (star root nodes).entries.map Prod.fst = root.toList ++ nodes := by
  simp [star, Function.comp_def]

theorem targetsOf_star [DecidableEq α] {root : α} {nodes : List α} :
    (star (some root) nodes).targetsOf root = nodes := by
  have hrest : ∀ others : List α,
      ((others.map fun node => (node, ([] : List α))).filter
        (·.1 = root)).flatMap Prod.snd = [] := by
    intro others
    induction others with
    | nil => simp
    | cons other others ih =>
      by_cases hother : other = root <;> simp [hother, ih]
  simp [targetsOf, star, hrest]

theorem sound_star_iff [DecidableEq α] {root : Option α} {nodes : List α} :
    (star root nodes).Sound ↔ (root.toList ++ nodes).Nodup := by
  constructor
  · intro hsound
    exact hsound.distinct
  · intro hdistinct
    constructor
    · exact hdistinct
    · intro entry hentry
      rw [references_star, ← map_fst_entries_star]
      exact List.mem_map_of_mem hentry
    · intro entry hentry target htarget
      simp only [star, List.mem_append, List.mem_map] at hentry
      rcases hentry with ⟨_, -, rfl⟩ | ⟨_, -, rfl⟩
      · exact List.mem_append_right _ htarget
      · simp at htarget
    · intro node hnode
      rw [map_fst_entries_star]
      exact List.count_eq_one_of_mem hdistinct
        (List.mem_append_right _ hnode)
    · intro top htop node hnode
      obtain rfl : root = some top := htop
      rw [targetsOf_star]
      exact List.count_eq_one_of_mem
        (List.nodup_append.mp hdistinct).2.1 hnode

end ReferenceGraph
end Bomwerk.Support
