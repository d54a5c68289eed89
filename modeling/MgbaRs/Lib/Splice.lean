import Mathlib.Data.List.Basic

/-!
# Lists as the contents of a random-access file

`overwrite z xs p bs` is what a file holding `xs` holds after `bs` is written
at offset `p`: a gap between the end of `xs` and `p` is filled with `z`, the
written range replaces what was there, and the file grows when the range
passes its end. `resize` cuts or fills to an exact length.
-/

namespace Splice

variable {α : Type*} (z : α) (xs : List α)

/-- `xs` filled up to length `n`; longer lists are left alone. -/
def padTo (n : Nat) : List α := xs ++ List.replicate (n - xs.length) z

/-- The contents after writing `bs` at offset `p`. -/
def overwrite (p : Nat) (bs : List α) : List α :=
  (padTo z xs p).take p ++ bs ++ xs.drop (p + bs.length)

/-- Cut or fill to length `n`. -/
def resize (n : Nat) : List α := (padTo z xs n).take n

@[simp] theorem length_padTo (n : Nat) : (padTo z xs n).length = max xs.length n := by
  simp only [padTo, List.length_append, List.length_replicate]
  omega

@[simp] theorem length_resize (n : Nat) : (resize z xs n).length = n := by
  simp only [resize, List.length_take, length_padTo]
  omega

@[simp] theorem length_overwrite (p : Nat) (bs : List α) :
    (overwrite z xs p bs).length = max xs.length (p + bs.length) := by
  simp only [overwrite, List.length_append, List.length_take, length_padTo, List.length_drop]
  omega

/-- Padding first and splicing into the padded list is the same write. -/
theorem overwrite_padTo (p : Nat) (bs : List α) :
    (padTo z xs p).take p ++ bs ++ (padTo z xs p).drop (p + bs.length) =
      overwrite z xs p bs := by
  have htail : (padTo z xs p).drop (p + bs.length) = xs.drop (p + bs.length) := by
    rw [padTo, List.drop_append, List.drop_replicate,
      show p - xs.length - (p + bs.length - xs.length) = 0 by omega]
    simp
  rw [overwrite, htail]

/-- `resize` by cases: a cut, or an extension. -/
theorem resize_eq (n : Nat) :
    resize z xs n =
      if n ≤ xs.length then xs.take n else xs ++ List.replicate (n - xs.length) z := by
  split
  · rename_i h
    rw [resize, padTo, List.take_append_of_le_length h]
  · rw [resize, List.take_of_length_le]
    · rfl
    · rw [length_padTo]
      omega

/-! ## Writes at offset zero -/

theorem overwrite_zero (bs : List α) :
    overwrite z xs 0 bs = bs ++ xs.drop bs.length := by
  simp [overwrite]

theorem take_overwrite_zero (bs : List α) :
    (overwrite z xs 0 bs).take bs.length = bs := by
  rw [overwrite_zero, List.take_left]

/-- Writing `bs` back over the front changes nothing exactly when the front
already is `bs`. -/
theorem overwrite_zero_eq_self_iff (bs : List α) :
    overwrite z xs 0 bs = xs ↔ xs.take bs.length = bs := by
  constructor
  · intro h
    rw [← h, take_overwrite_zero]
  · intro h
    calc overwrite z xs 0 bs = bs ++ xs.drop bs.length := overwrite_zero z xs bs
      _ = xs.take bs.length ++ xs.drop bs.length := by rw [h]
      _ = xs := List.take_append_drop bs.length xs

end Splice
