import Mathlib.Algebra.Order.Ring.Int
import Mathlib.Data.List.Basic
import Mathlib.Tactic.Common

/-! Reading and overwriting a stretch of a list. A buffer kept as a sequence of
blocks is one list, and the lemmas below move a stretch across the seam between
two blocks, which is all a block-by-block walk needs. -/
namespace Sylar.Lib

variable {α : Type*}

/-- `items` stored over the cells of `buf` that start at `pos`. -/
def overlay (buf : List α) (pos : Nat) (items : List α) : List α :=
  buf.take pos ++ items ++ buf.drop (pos + items.length)

/-- The `count` cells of `buf` that start at `pos`. -/
def slice (buf : List α) (pos count : Nat) : List α :=
  (buf.drop pos).take count

theorem length_overlay (buf : List α) (pos : Nat) (items : List α)
    (hfits : pos + items.length ≤ buf.length) :
    (overlay buf pos items).length = buf.length := by
  simp only [overlay, List.length_append, List.length_take, List.length_drop]
  omega

@[simp] theorem overlay_nil (buf : List α) (pos : Nat) : overlay buf pos [] = buf := by
  simp [overlay]

@[simp] theorem slice_zero (buf : List α) (pos : Nat) : slice buf pos 0 = [] := by
  simp [slice]

theorem overlay_append_right (before buf : List α) (pos : Nat) (items : List α) :
    overlay (before ++ buf) (before.length + pos) items = before ++ overlay buf pos items := by
  simp only [overlay, Nat.add_assoc, List.take_length_add_append, List.drop_length_add_append,
    List.append_assoc]

theorem overlay_append_left (buf after : List α) (pos : Nat) (items : List α)
    (hfits : pos + items.length ≤ buf.length) :
    overlay (buf ++ after) pos items = overlay buf pos items ++ after := by
  have htake : (buf ++ after).take pos = buf.take pos :=
    List.take_append_of_le_length (by omega)
  have hdrop : (buf ++ after).drop (pos + items.length) =
      buf.drop (pos + items.length) ++ after :=
    List.drop_append_of_le_length hfits
  simp only [overlay, htake, hdrop, List.append_assoc]

theorem overlay_append_split (block rest : List α) (pos : Nat) (head tail : List α)
    (hseam : pos + head.length = block.length) :
    overlay (block ++ rest) pos (head ++ tail) =
      overlay block pos head ++ overlay rest 0 tail := by
  have htake : (block ++ rest).take pos = block.take pos :=
    List.take_append_of_le_length (by omega)
  have hdrop : (block ++ rest).drop (pos + (head.length + tail.length)) =
      rest.drop tail.length := by
    rw [show pos + (head.length + tail.length) = block.length + tail.length by omega]
    simp [List.drop_append]
  have hend : block.drop (pos + head.length) = [] := by
    rw [hseam]
    exact List.drop_length
  simp only [overlay, List.length_append, htake, hdrop, hend, List.take_zero, List.nil_append,
    Nat.zero_add, List.append_nil, List.append_assoc]

theorem slice_append_right (before buf : List α) (pos count : Nat) :
    slice (before ++ buf) (before.length + pos) count = slice buf pos count := by
  rw [slice, List.drop_length_add_append, slice]

theorem slice_append_left (buf after : List α) (pos count : Nat)
    (hfits : pos + count ≤ buf.length) :
    slice (buf ++ after) pos count = slice buf pos count := by
  unfold slice
  rw [List.drop_append_of_le_length (by omega)]
  exact List.take_append_of_le_length (by simp only [List.length_drop]; omega)

theorem slice_append_split (block rest : List α) (pos head tail : Nat)
    (hseam : pos + head = block.length) :
    slice (block ++ rest) pos (head + tail) = slice block pos head ++ slice rest 0 tail := by
  unfold slice
  have hlen : (block.drop pos).length = head := by
    simp only [List.length_drop]
    omega
  rw [List.drop_append_of_le_length (by omega), ← hlen]
  simp [List.take_append]

theorem take_overlay (buf : List α) (pos : Nat) (items : List α)
    (hpos : pos ≤ buf.length) : (overlay buf pos items).take pos = buf.take pos := by
  rw [overlay, List.append_assoc]
  exact List.take_left' (by simp [hpos])

theorem slice_overlay (buf : List α) (pos : Nat) (items : List α)
    (hpos : pos ≤ buf.length) : slice (overlay buf pos items) pos items.length = items := by
  unfold slice overlay
  rw [List.append_assoc, List.drop_left' (by simp [hpos])]
  exact List.take_left

theorem slice_overlay_before (buf : List α) (pos : Nat) (items : List α) (start count : Nat)
    (hbefore : start + count ≤ pos) (hpos : pos ≤ buf.length) :
    slice (overlay buf pos items) start count = slice buf start count := by
  have htake : (buf.take pos).length = pos := List.length_take_of_le hpos
  rw [overlay, List.append_assoc, slice_append_left _ _ _ _ (by omega)]
  conv_rhs => rw [← List.take_append_drop pos buf]
  rw [slice_append_left _ _ _ _ (by omega)]

/-- The stretch up to `pos + count` is the stretch up to `pos` and the rest. -/
theorem take_add_slice (buf : List α) (pos count : Nat) :
    buf.take (pos + count) = buf.take pos ++ slice buf pos count := by
  rw [slice, List.take_add]

theorem slice_add (buf : List α) (pos left right : Nat) :
    slice buf pos (left + right) = slice buf pos left ++ slice buf (pos + left) right := by
  rw [slice, List.take_add, List.drop_drop, slice, slice]

theorem take_slice (buf : List α) (pos count less : Nat) (hless : less ≤ count) :
    (slice buf pos count).take less = slice buf pos less := by
  rw [slice, List.take_take, Nat.min_eq_left hless, slice]

theorem overlay_overlay (buf : List α) (pos : Nat) (head tail : List α)
    (hpos : pos ≤ buf.length) :
    overlay (overlay buf pos head) (pos + head.length) tail = overlay buf pos (head ++ tail) := by
  have htake : (buf.take pos ++ head).length = pos + head.length := by
    rw [List.length_append, List.length_take_of_le hpos]
  rw [overlay, overlay, overlay, List.take_left' htake, List.length_append, ← Nat.add_assoc,
    ← htake, List.drop_length_add_append, List.drop_drop, htake]
  simp only [List.append_assoc]

/-- Two stretches stand one behind the other exactly when their join stands
where the first one starts. -/
theorem slice_eq_append_iff (buf : List α) (pos : Nat) (left right : List α) :
    slice buf pos (left ++ right).length = left ++ right ↔
      slice buf pos left.length = left ∧
        slice buf (pos + left.length) right.length = right := by
  have hsplit : slice buf pos (left ++ right).length =
      slice buf pos left.length ++ slice buf (pos + left.length) right.length := by
    rw [List.length_append, slice_add]
  rw [hsplit]
  constructor
  · intro heq
    have hleft : (slice buf pos left.length).length ≤ left.length := by
      simp only [slice, List.length_take]
      omega
    have hright : (slice buf (pos + left.length) right.length).length ≤ right.length := by
      simp only [slice, List.length_take]
      omega
    have htotal := congrArg List.length heq
    simp only [List.length_append] at htotal
    exact List.append_inj heq (by omega)
  · rintro ⟨hleft, hright⟩
    rw [hleft, hright]

end Sylar.Lib
