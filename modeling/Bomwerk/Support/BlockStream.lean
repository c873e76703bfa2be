import Mathlib.Data.List.Basic

/-!
# Streams taken in blocks

A machine that takes its input in blocks of a fixed size, one step for each
full block, and keeps the rest until more comes.  Taking a stream in pieces is
the same as taking it whole.
-/

namespace Bomwerk.Support

variable {α σ : Type*}

/-- One step for each full block in front; the state after them and the items
that fill no block. -/
def absorb (step : σ → List α → σ) (size : Nat) (state : σ)
    (items : List α) : σ × List α :=
  if 0 < size ∧ size ≤ items.length then
    absorb step size (step state (items.take size)) (items.drop size)
  else (state, items)
termination_by items.length
decreasing_by
  rw [List.length_drop]
  omega

variable {step : σ → List α → σ} {size : Nat}

theorem absorb_of_length_lt {items : List α} (hshort : items.length < size)
    (state : σ) : absorb step size state items = (state, items) := by
  rw [absorb, if_neg (by omega)]

theorem absorb_block_append (hsize : 0 < size) {block : List α}
    (hblock : block.length = size) (state : σ) (rest : List α) :
    absorb step size state (block ++ rest) =
      absorb step size (step state block) rest := by
  rw [absorb, if_pos ⟨hsize, by rw [List.length_append]; omega⟩, ← hblock,
    List.take_left, List.drop_left]

theorem absorb_of_le (hsize : 0 < size) {items : List α}
    (hfull : size ≤ items.length) (state : σ) :
    absorb step size state items =
      absorb step size (step state (items.take size)) (items.drop size) := by
  rw [absorb, if_pos ⟨hsize, hfull⟩]

theorem length_absorb_snd (hsize : 0 < size) (state : σ) (items : List α) :
    (absorb step size state items).2.length = items.length % size := by
  induction state, items using absorb.induct step size with
  | case1 state items hfull ih =>
    rw [absorb_of_le hsize hfull.2, ih, List.length_drop]
    exact (Nat.mod_eq_sub_mod hfull.2).symm
  | case2 state items hshort =>
    have hlt : items.length < size := by omega
    rw [absorb_of_length_lt hlt, Nat.mod_eq_of_lt hlt]

/-- A stream may be taken in two pieces, what is kept of the first one going in
front of the second. -/
theorem absorb_append (hsize : 0 < size) (state : σ) (left right : List α) :
    absorb step size state (left ++ right) =
      absorb step size (absorb step size state left).1
        ((absorb step size state left).2 ++ right) := by
  induction state, left using absorb.induct step size with
  | case1 state left hfull ih =>
    have hblock : (left.take size).length = size :=
      List.length_take_of_le hfull.2
    calc
      absorb step size state (left ++ right) = absorb step size state
            (left.take size ++ (left.drop size ++ right)) := by
        rw [← List.append_assoc, List.take_append_drop]
      _ = absorb step size (step state (left.take size))
            (left.drop size ++ right) := absorb_block_append hsize hblock _ _
      _ = _ := by rw [ih, absorb_of_le hsize hfull.2]
  | case2 state left hshort =>
    have hlt : left.length < size := by omega
    rw [absorb_of_length_lt hlt]

/-- A stream of whole blocks is the run over its blocks. -/
theorem absorb_of_length_eq (hsize : 0 < size) (count : Nat) (state : σ)
    {items : List α} (hlength : items.length = count * size) :
    absorb step size state items = ((List.range count).foldl
        (fun state i => step state ((items.drop (i * size)).take size)) state,
        []) := by
  induction count generalizing items with
  | zero =>
    obtain rfl : items = [] := by simpa using hlength
    exact absorb_of_length_lt (by simpa using hsize) state
  | succ count ih =>
    have hfront : (items.take (count * size)).length = count * size := by
      apply List.length_take_of_le
      rw [hlength, Nat.succ_mul]
      omega
    have hlast : (items.drop (count * size)).length = size := by
      rw [List.length_drop, hlength, Nat.succ_mul]
      omega
    have hblocks : ∀ i ∈ List.range count,
        ((items.take (count * size)).drop (i * size)).take size =
          (items.drop (i * size)).take size := by
      intro i hi
      have hle : i * size + size ≤ count * size := by
        have hsucc : i + 1 ≤ count := List.mem_range.mp hi
        calc
          i * size + size = (i + 1) * size := (Nat.succ_mul i size).symm
          _ ≤ count * size := Nat.mul_le_mul_right size hsucc
      rw [List.drop_take, List.take_take]
      congr 1
      omega
    have hfold : (List.range count).foldl
        (fun state i => step state
          (((items.take (count * size)).drop (i * size)).take size)) state =
        (List.range count).foldl
          (fun state i => step state ((items.drop (i * size)).take size))
          state := by
      apply List.foldl_ext
      intro state' i hi
      rw [hblocks i hi]
    conv_lhs => rw [← List.take_append_drop (count * size) items]
    rw [absorb_append hsize, ih hfront, hfold, List.nil_append,
      absorb_of_le hsize (Nat.le_of_eq hlast.symm), List.range_succ,
      List.foldl_append,
      List.drop_eq_nil_of_le (Nat.le_of_eq hlast)]
    exact absorb_of_length_lt (by simpa using hsize) _

end Bomwerk.Support
