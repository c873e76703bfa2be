import Bomwerk.Core.XmlScan

/-!
# Build variables

The references that `core/build_variables.cpp` looks for in a text.
-/

namespace Bomwerk.Core

/-- `text.find(pattern) != npos`. -/
def containsText (pattern text : List Char) : Bool :=
  (XmlScan.splitAtFirst pattern text).isSome

theorem containsText_eq_true_iff {pattern text : List Char} :
    containsText pattern text = true ↔ pattern <:+: text := by
  unfold containsText
  induction text with
  | nil =>
    rw [XmlScan.splitAtFirst, List.infix_nil]
    split_ifs with hpattern
    · exact iff_of_true rfl hpattern
    · exact iff_of_false (by simp) hpattern
  | cons c text ih =>
    rw [XmlScan.splitAtFirst, List.infix_cons_iff, ← List.isPrefixOf_iff_prefix]
    split_ifs with hstart
    · simp [hstart]
    · simp [hstart, ih]

def unexpandedMarkers : List (List Char) :=
  [['$', '{'], ['$', '('], ['$', '<'], ['%', '('], "$ENV\x7b".toList,
    "$CACHE\x7b".toList]

def containsUnexpandedVariable (text : List Char) : Bool :=
  unexpandedMarkers.any fun marker => containsText marker text

end Bomwerk.Core
