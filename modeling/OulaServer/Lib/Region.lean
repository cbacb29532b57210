import Mathlib.Tactic

/-!
# Regions of an array

A vector of cells is a list; `slice v i n` is its region of `n` cells from index `i` on, `overwrite
v i bs` the vector after `bs` was stored there, and `resize v n a` the vector grown or cut to `n`
cells, new ones holding `a`. The lemmas say which regions a store or a resize leaves alone, and that
adjacent regions concatenate.
-/

namespace Region

variable {α : Type*}

/-- The `n` cells of `v` from index `i` on. -/
def slice (v : List α) (i n : Nat) : List α := (v.drop i).take n

/-- `v` with `bs` stored from index `i` on. -/
def overwrite (v : List α) (i : Nat) (bs : List α) : List α := v.take i ++ bs ++ v.drop (i + bs.length)

/-- `v` cut or grown to `n` cells, the new ones holding `a`. -/
def resize (v : List α) (n : Nat) (a : α) : List α := v.take n ++ List.replicate (n - v.length) a

variable {v : List α} {i j n m : Nat} {bs : List α} {a : α}

@[simp] theorem slice_zero : slice v i 0 = [] := by simp [slice]

theorem length_slice (h : i + n ≤ v.length) : (slice v i n).length = n := by
  simp only [slice, List.length_take, List.length_drop]
  omega

theorem slice_add : slice v i (n + m) = slice v i n ++ slice v (i + n) m := by
  simp only [slice, List.take_add, List.drop_drop]

theorem slice_drop : (slice v i (n + m)).drop n = slice v (i + n) m := by
  simp only [slice, List.drop_take, List.drop_drop, Nat.add_sub_cancel_left]

theorem slice_take : (slice v i (n + m)).take n = slice v i n := by
  simp only [slice, List.take_take, Nat.min_eq_left (Nat.le_add_right n m)]

@[simp] theorem slice_self : slice v 0 v.length = v := by simp [slice]

theorem length_overwrite (h : i + bs.length ≤ v.length) : (overwrite v i bs).length = v.length := by
  simp only [overwrite, List.length_append, List.length_take, List.length_drop]
  omega

theorem slice_overwrite_same (h : i ≤ v.length) : slice (overwrite v i bs) i bs.length = bs := by
  have hlen : (v.take i).length = i := List.length_take_of_le h
  rw [slice, overwrite, List.append_assoc, List.drop_append_of_le_length (by omega),
    List.drop_of_length_le (by omega), List.nil_append, List.take_left]

theorem slice_overwrite_before (hj : j + n ≤ i) (h : i ≤ v.length) :
    slice (overwrite v i bs) j n = slice v j n := by
  have hlen : (v.take i).length = i := List.length_take_of_le h
  rw [slice, overwrite, List.append_assoc, List.drop_append_of_le_length (by omega),
    List.take_append_of_le_length (by rw [List.length_drop]; omega), List.drop_take, List.take_take,
    Nat.min_eq_left (by omega), slice]

theorem length_resize : (resize v n a).length = n := by
  simp only [resize, List.length_append, List.length_take, List.length_replicate]
  omega

theorem slice_resize (h : i + m ≤ v.length) (hn : v.length ≤ n) : slice (resize v n a) i m = slice v i m := by
  rw [resize, List.take_of_length_le hn, slice, List.drop_append_of_le_length (by omega),
    List.take_append_of_le_length (by rw [List.length_drop]; omega), slice]

/-! ### Removing an element by swapping it with the last one -/

/-- `v` with the elements at `i` and `j` exchanged. -/
def swap (v : List α) (i j : Nat) : List α :=
  match v[i]?, v[j]? with
  | some a, some b => (v.set i b).set j a
  | _, _ => v

theorem length_swap : (swap v i j).length = v.length := by
  unfold swap
  split <;> simp

/-- After the swap with the last element and its removal, the last element stands at `i` and the
others where they were. -/
theorem getElem?_swap_dropLast (hi : i < v.length - 1) (hj : j < v.length - 1) :
    (swap v (v.length - 1) i).dropLast[j]? = if j = i then v[v.length - 1]? else v[j]? := by
  have hlast : v[v.length - 1]? = some v[v.length - 1] := List.getElem?_eq_getElem _
  have hget : v[i]? = some v[i] := List.getElem?_eq_getElem _
  have hlen : j < (swap v (v.length - 1) i).length - 1 := by
    rw [length_swap]
    exact hj
  rw [List.getElem?_dropLast, if_pos hlen]
  simp only [swap, hlast, hget]
  by_cases hji : j = i
  · subst hji
    rw [if_pos rfl, List.getElem?_set_self (by rw [List.length_set]; omega)]
  · rw [if_neg hji, List.getElem?_set_ne (Ne.symm hji), List.getElem?_set_ne (by omega)]

end Region
