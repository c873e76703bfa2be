import Bomwerk.Core.PercentCoding
import Bomwerk.Core.YamlWriting
import Bomwerk.Support.Url

/-!
# Pieces of texts

What the readers cut out of a text holds no character that the text does not
hold.
-/

namespace Bomwerk.Core

theorem trimmed_subset (text : List Char) : trimmed text ⊆ text := by
  intro c hc
  exact (List.dropWhile_sublist _).subset
    ((List.rdropWhile_prefix _ _).subset hc)

theorem subset_of_mem_splitOn {separator : Char} {text : List Char} :
    ∀ piece ∈ text.splitOn separator, piece ⊆ text := by
  induction text with
  | nil => simp
  | cons c text ih =>
    rw [List.splitOn_cons_eq_if_modifyHead]
    have hlater : ∀ piece ∈ text.splitOn separator, piece ⊆ c :: text := by
      intro piece hpiece
      exact List.Subset.trans (ih piece hpiece) (List.subset_cons_self _ _)
    by_cases hc : c = separator
    · subst c
      simpa using hlater
    · obtain ⟨first, rest, hsplit⟩ :=
        List.exists_cons_of_ne_nil (List.splitOn_ne_nil separator text)
      rw [hsplit] at ih hlater ⊢
      intro piece hpiece
      simp only [beq_iff_eq, hc, if_false, List.modifyHead_cons,
        List.mem_cons] at hpiece
      rcases hpiece with rfl | hpiece
      · exact List.cons_subset_cons _ (ih first (by simp))
      · exact hlater piece (by simp [hpiece])

/-! ## Byte texts -/

section ByteTexts

variable {text : List Char}

theorem IsByteText.trimmed (htext : IsByteText text) :
    IsByteText (trimmed text) :=
  htext.mono (trimmed_subset text)

theorem IsByteText.takeWhile (htext : IsByteText text) (test : Char → Bool) :
    IsByteText (text.takeWhile test) :=
  htext.mono (List.takeWhile_sublist _).subset

theorem IsByteText.dropWhile (htext : IsByteText text) (test : Char → Bool) :
    IsByteText (text.dropWhile test) :=
  htext.mono (List.dropWhile_sublist _).subset

theorem IsByteText.tail (htext : IsByteText text) : IsByteText text.tail :=
  htext.mono (List.tail_sublist _).subset

theorem IsByteText.dropLast (htext : IsByteText text) :
    IsByteText text.dropLast :=
  htext.mono (List.dropLast_sublist _).subset

theorem IsByteText.drop (htext : IsByteText text) (count : Nat) :
    IsByteText (text.drop count) :=
  htext.mono (List.drop_subset _ _)

theorem IsByteText.of_mem_splitOn (htext : IsByteText text) {separator : Char}
    {piece : List Char} (hpiece : piece ∈ text.splitOn separator) :
    IsByteText piece :=
  htext.mono (subset_of_mem_splitOn piece hpiece)

theorem isByteText_percentDecodeText (text : List Char) :
    IsByteText (percentDecodeText text) :=
  isByteText_byteText _

namespace YamlSubset

theorem isByteText_unquoted (htext : IsByteText text) :
    IsByteText (unquoted text) := by
  rw [YamlSubset.unquoted.eq_def]
  split
  · split
    · exact htext.tail.dropLast
    · exact htext
  · exact htext

theorem splitOutsideQuotes_append (stop : Option Char → Char → List Char → Bool)
    (openQuote previous : Option Char) (text : List Char) :
    (splitOutsideQuotes stop openQuote previous text).1 ++
      (splitOutsideQuotes stop openQuote previous text).2 = text := by
  fun_induction splitOutsideQuotes stop openQuote previous text <;> simp_all

/-- What a node of the reader holds. -/
structure IsByteNode (node : Node) : Prop where
  key : IsByteText node.key
  value : IsByteText node.value

theorem isByteNode_nodeOf {indentation : Nat} {key value : List Char}
    (hkey : IsByteText key) (hvalue : IsByteText value) :
    IsByteNode (nodeOf indentation key value) := by
  constructor
  · exact hkey
  · simp only [nodeOf]
    split_ifs
    · exact hvalue.tail.dropLast.trimmed
    · exact isByteText_unquoted hvalue

theorem isByteNode_readContent {indentation : Nat} {content : List Char}
    {node : Node} (hcontent : IsByteText content)
    (hnode : (readContent indentation content).2 = .node node) :
    IsByteNode node := by
  simp only [readContent] at hnode
  split_ifs at hnode
  split at hnode
  · simp at hnode
  · rename_i keyText valueText hsplit
    have hparts : IsByteText keyText ∧ IsByteText valueText := by
      have happend := splitOutsideQuotes_append separatesKey none none content
      simp only [splitKey?] at hsplit
      split at hsplit
      · simp at hsplit
      · rename_i key c value hscan
        obtain ⟨rfl, rfl⟩ : key = keyText ∧ value = valueText := by
          simpa using hsplit
        rw [hscan] at happend
        constructor
        · apply hcontent.mono
          rw [← happend]
          exact List.subset_append_left _ _
        · apply hcontent.mono
          rw [← happend]
          exact List.Subset.trans (List.subset_cons_self _ _)
            (List.subset_append_right _ _)
    split_ifs at hnode
    obtain rfl : nodeOf indentation _ _ = node := by simpa using hnode
    exact isByteNode_nodeOf (isByteText_unquoted hparts.1.trimmed)
      hparts.2.trimmed

theorem isByteNode_readLine {blockScalarIndentation : Option Nat}
    {rawLine : List Char} {node : Node} (hline : IsByteText rawLine)
    (hnode : (readLine blockScalarIndentation rawLine).2 = .node node) :
    IsByteNode node := by
  simp only [readLine] at hnode
  split_ifs at hnode
  refine isByteNode_readContent (IsByteText.trimmed ?_) hnode
  have happend := splitOutsideQuotes_append startsComment none none
    (rawLine.drop (leadingSpaceCount rawLine))
  apply (hline.drop (leadingSpaceCount rawLine)).mono
  conv_rhs => rw [← happend]
  exact List.subset_append_left _ _

theorem isByteNode_readLines {blockScalarIndentation : Option Nat}
    {lines : List (List Char)} {node : Node}
    (hlines : ∀ line ∈ lines, IsByteText line)
    (hnode : .node node ∈ readLines blockScalarIndentation lines) :
    IsByteNode node := by
  induction lines generalizing blockScalarIndentation with
  | nil => simp [readLines] at hnode
  | cons line lines ih =>
    rw [List.forall_mem_cons] at hlines
    simp only [readLines, List.mem_cons] at hnode
    rcases hnode with hfirst | hlater
    · exact isByteNode_readLine hlines.1 hfirst.symm
    · exact ih hlines.2 hlater

theorem isByteNode_of_mem_lineResults (htext : IsByteText text) {node : Node}
    (hnode : .node node ∈ lineResults text) : IsByteNode node :=
  isByteNode_readLines (fun _ hline => htext.of_mem_splitOn hline) hnode

end YamlSubset
end ByteTexts
end Bomwerk.Core

/-!
## Blanks and what stands behind them

The first character of a text that is no blank survives every trimming.
-/

namespace Bomwerk.Core

open Bomwerk.Support

def AllBlank (text : List Char) : Prop :=
  ∀ c ∈ text, isAsciiBlank c = true

/-- The first character that is no blank. -/
def solidHead (text : List Char) : Option Char :=
  (text.dropWhile isAsciiBlank).head?

theorem solidHead_cons {c : Char} (hc : isAsciiBlank c = false)
    (rest : List Char) : solidHead (c :: rest) = some c := by
  rw [solidHead, List.dropWhile_cons_of_neg (by simp [hc]), List.head?_cons]

theorem solidHead_eq_none_iff {text : List Char} :
    solidHead text = none ↔ AllBlank text := by
  rw [solidHead, List.head?_eq_none_iff, List.dropWhile_eq_nil_iff, AllBlank]

theorem solidHead_append (front rest : List Char) :
    solidHead (front ++ rest) = (solidHead front).or (solidHead rest) := by
  rw [solidHead, solidHead, solidHead, List.dropWhile_append]
  cases front.dropWhile isAsciiBlank with
  | nil => rfl
  | cons c front => rfl

theorem head?_trimmed (text : List Char) :
    (trimmed text).head? = solidHead text := by
  rw [trimmed, solidHead]
  cases hdrop : text.dropWhile isAsciiBlank with
  | nil => rfl
  | cons c rest =>
    have hc : isAsciiBlank c = false := by
      have hhead := List.head?_dropWhile_not isAsciiBlank text
      rw [hdrop] at hhead
      simpa using hhead
    rw [← List.singleton_append, rdropWhile_append]
    split_ifs with hblank
    · rw [List.rdropWhile_singleton, if_neg (by simp [hc])]
      rfl
    · rfl

theorem trimmed_eq_nil_iff {text : List Char} :
    trimmed text = [] ↔ AllBlank text := by
  rw [← List.head?_eq_none_iff, head?_trimmed, solidHead_eq_none_iff]

theorem getLast?_trimmed {text : List Char} :
    ∀ c ∈ (trimmed text).getLast?, isAsciiBlank c = false := by
  intro c hc
  obtain ⟨hne, rfl⟩ := List.mem_getLast?_eq_getLast hc
  exact Bool.eq_false_iff.mpr (List.rdropWhile_last_not isAsciiBlank _ hne)

theorem of_solidHead {text : List Char} :
    ∀ c ∈ solidHead text, isAsciiBlank c = false := by
  intro c hc
  have hnot := List.head?_dropWhile_not isAsciiBlank text
  rw [show (text.dropWhile isAsciiBlank).head? = some c from hc] at hnot
  simpa using hnot

theorem dropWhile_of_head {text : List Char}
    (h : ∀ c ∈ text.head?, isAsciiBlank c = false) :
    text.dropWhile isAsciiBlank = text := by
  cases text with
  | nil => rfl
  | cons c rest => exact List.dropWhile_cons_of_neg (by simp [h c rfl])

theorem exists_trimmed_append {text : List Char}
    (h : ∀ c ∈ text.head?, isAsciiBlank c = false) :
    ∃ blanks, AllBlank blanks ∧ text = trimmed text ++ blanks := by
  refine ⟨text.rtakeWhile isAsciiBlank, fun c hc =>
    List.mem_rtakeWhile_imp hc, ?_⟩
  rw [trimmed, dropWhile_of_head h, List.rdropWhile_append_rtakeWhile]

theorem trimmed_append {front : List Char} (hsolid : IsSolid front)
    (rest : List Char) :
    trimmed (front ++ rest) = front ++ rest.rdropWhile isAsciiBlank := by
  obtain ⟨c, hc, hhead⟩ := hsolid.head
  have hdrop : (front ++ rest).dropWhile isAsciiBlank = front ++ rest := by
    apply dropWhile_of_head
    intro d hd
    rw [List.head?_append, hc] at hd
    obtain rfl : c = d := by simpa using hd
    exact hhead
  have hfront : front.rdropWhile isAsciiBlank = front := by
    rw [List.rdropWhile_eq_self_iff]
    intro hne
    obtain ⟨last, hlast, hsolid⟩ := hsolid.last
    rw [List.getLast?_eq_some_getLast hne] at hlast
    obtain rfl := Option.some.inj hlast
    simp [hsolid]
  rw [trimmed, hdrop, rdropWhile_append, hfront]
  split_ifs with hblank
  · rw [hblank, List.append_nil]
  · rfl

theorem trimmed_blanks_append {blanks : List Char} (h : AllBlank blanks)
    (text : List Char) : trimmed (blanks ++ text) = trimmed text := by
  rw [trimmed, List.dropWhile_append_of_pos h, trimmed]

theorem exists_blanks_trimmed (text : List Char) :
    ∃ lead more, AllBlank lead ∧ AllBlank more ∧
      text = lead ++ (trimmed text ++ more) := by
  have hlead : AllBlank (text.takeWhile isAsciiBlank) := fun c hc =>
    List.mem_takeWhile_imp hc
  obtain ⟨more, hmore, hback⟩ :=
    @exists_trimmed_append (text.dropWhile isAsciiBlank) of_solidHead
  have hsplit := List.takeWhile_append_dropWhile (p := isAsciiBlank) (l := text)
  rw [← trimmed_blanks_append hlead, hsplit] at hback
  refine ⟨_, more, hlead, hmore, ?_⟩
  rw [← hback, hsplit]

theorem blanks_append_inj {left right rest rest' : List Char}
    (hleft : AllBlank left) (hright : AllBlank right)
    (hrest : ∀ c ∈ rest.head?, isAsciiBlank c = false)
    (hrest' : ∀ c ∈ rest'.head?, isAsciiBlank c = false)
    (h : left ++ rest = right ++ rest') : left = right ∧ rest = rest' := by
  obtain ⟨htake, hdrop⟩ :=
    takeWhile_append_of_stop isAsciiBlank left rest hleft hrest
  obtain ⟨htake', hdrop'⟩ :=
    takeWhile_append_of_stop isAsciiBlank right rest' hright hrest'
  rw [h] at htake hdrop
  exact ⟨htake.symm.trans htake', hdrop.symm.trans hdrop'⟩

end Bomwerk.Core
