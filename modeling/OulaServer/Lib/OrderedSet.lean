import Mathlib.Tactic

/-!
# Ordered sets

A finite set of a linear order that is kept in order, as the standard library's `std::set` is: the sorted
list of its elements. `insert` and `erase` say whether, and how many, elements they changed. `before x` are
the elements from the first one up to the lower bound of `x`, in order, and `eraseBefore x` is what is left
when they are erased.

Every operation is described by what is in its result, and `size_eq` compares the sizes of two sets whose
elements correspond.
-/

/-- The sorted list of the elements. -/
structure OrderedSet (α : Type*) [LinearOrder α] where
  toList : List α
  sorted : toList.Pairwise (· < ·)

namespace OrderedSet

variable {α β : Type*} [LinearOrder α] [LinearOrder β]

instance : Membership α (OrderedSet α) := ⟨fun s x => x ∈ s.toList⟩

instance (x : α) (s : OrderedSet α) : Decidable (x ∈ s) := inferInstanceAs (Decidable (x ∈ s.toList))

theorem mem_toList {s : OrderedSet α} {x : α} : x ∈ s.toList ↔ x ∈ s := Iff.rfl

def empty : OrderedSet α := ⟨[], List.Pairwise.nil⟩

def size (s : OrderedSet α) : Nat := s.toList.length

/-- The first element. -/
def first (s : OrderedSet α) : Option α := s.toList.head?

@[simp] theorem not_mem_empty (x : α) : x ∉ (empty : OrderedSet α) := List.not_mem_nil

theorem nodup (s : OrderedSet α) : s.toList.Nodup := s.sorted.imp ne_of_lt

/-! ### Inserting -/

/-- The list with `x` at its place, unless it is there. -/
def insertList (x : α) : List α → List α
  | [] => [x]
  | y :: ys => if x < y then x :: y :: ys else if x = y then y :: ys else y :: insertList x ys

theorem mem_insertList {x y : α} {l : List α} : y ∈ insertList x l ↔ y = x ∨ y ∈ l := by
  induction l with
  | nil => simp [insertList]
  | cons z zs ih =>
      unfold insertList
      split_ifs with hlt heq
      · simp
      · subst heq
        simp
      · rw [List.mem_cons, ih, List.mem_cons]
        exact or_left_comm

theorem insertList_sorted {x : α} {l : List α} (h : l.Pairwise (· < ·)) : (insertList x l).Pairwise (· < ·) := by
  induction l with
  | nil => exact List.pairwise_singleton _ _
  | cons z zs ih =>
      obtain ⟨hz, hzs⟩ := List.pairwise_cons.mp h
      unfold insertList
      split_ifs with hlt heq
      · refine List.pairwise_cons.mpr ⟨fun y hy => ?_, h⟩
        rcases List.mem_cons.mp hy with rfl | hy
        · exact hlt
        · exact hlt.trans (hz y hy)
      · exact h
      · refine List.pairwise_cons.mpr ⟨fun y hy => ?_, ih hzs⟩
        rcases mem_insertList.mp hy with rfl | hy
        · exact lt_of_le_of_ne (not_lt.mp hlt) (Ne.symm heq)
        · exact hz y hy

/-- The set with `x`, and whether `x` is new. -/
def insert (s : OrderedSet α) (x : α) : OrderedSet α × Bool :=
  (⟨insertList x s.toList, insertList_sorted s.sorted⟩, decide (x ∉ s))

theorem mem_insert {s : OrderedSet α} {x y : α} : y ∈ (s.insert x).1 ↔ y = x ∨ y ∈ s := mem_insertList

theorem insert_snd {s : OrderedSet α} {x : α} (h : x ∉ s) : (s.insert x).2 = true := decide_eq_true h

/-! ### Erasing -/

/-- The set without `x`, and the number of elements erased. -/
def erase (s : OrderedSet α) (x : α) : OrderedSet α × Nat :=
  (⟨s.toList.erase x, s.sorted.sublist List.erase_sublist⟩, if x ∈ s then 1 else 0)

theorem mem_erase {s : OrderedSet α} {x y : α} : y ∈ (s.erase x).1 ↔ y ≠ x ∧ y ∈ s := s.nodup.mem_erase_iff

theorem erase_snd {s : OrderedSet α} {x : α} (h : x ∈ s) : (s.erase x).2 = 1 := if_pos h

/-! ### The lower bound -/

/-- The elements before the lower bound of `x`, in order. -/
def before (s : OrderedSet α) (x : α) : List α := s.toList.takeWhile (· < x)

/-- The set without the elements before the lower bound of `x`. -/
def eraseBefore (s : OrderedSet α) (x : α) : OrderedSet α :=
  ⟨s.toList.dropWhile (· < x), s.sorted.sublist (List.dropWhile_sublist _)⟩

theorem before_append (s : OrderedSet α) (x : α) : s.before x ++ (s.eraseBefore x).toList = s.toList :=
  List.takeWhile_append_dropWhile

theorem before_sorted (s : OrderedSet α) (x : α) : (s.before x).Pairwise (· < ·) :=
  s.sorted.sublist (List.takeWhile_sublist _)

theorem split_sorted {x : α} {l : List α} (h : l.Pairwise (· < ·)) :
    (∀ y ∈ l.takeWhile (· < x), y < x) ∧ ∀ y ∈ l.dropWhile (· < x), x ≤ y := by
  induction l with
  | nil => simp
  | cons z zs ih =>
      obtain ⟨hz, hzs⟩ := List.pairwise_cons.mp h
      by_cases hlt : z < x
      · simp only [List.takeWhile_cons, List.dropWhile_cons, hlt, decide_true, if_true]
        refine ⟨fun y hy => ?_, (ih hzs).2⟩
        rcases List.mem_cons.mp hy with rfl | hy
        · exact hlt
        · exact (ih hzs).1 y hy
      · simp only [List.takeWhile_cons, List.dropWhile_cons, hlt, decide_false, Bool.false_eq_true, if_false]
        refine ⟨by simp, fun y hy => ?_⟩
        rcases List.mem_cons.mp hy with rfl | hy
        · exact not_lt.mp hlt
        · exact (not_lt.mp hlt).trans (hz y hy).le

theorem mem_before {s : OrderedSet α} {x y : α} : y ∈ s.before x ↔ y ∈ s ∧ y < x := by
  obtain ⟨hbefore, hafter⟩ := split_sorted (x := x) s.sorted
  rw [← mem_toList, ← s.before_append x, List.mem_append]
  constructor
  · intro hy
    exact ⟨Or.inl hy, hbefore y hy⟩
  · rintro ⟨hy | hy, hlt⟩
    · exact hy
    · exact absurd hlt (not_lt.mpr (hafter y hy))

theorem mem_eraseBefore {s : OrderedSet α} {x y : α} : y ∈ s.eraseBefore x ↔ y ∈ s ∧ x ≤ y := by
  obtain ⟨hbefore, hafter⟩ := split_sorted (x := x) s.sorted
  rw [← mem_toList (s := s), ← s.before_append x, List.mem_append]
  constructor
  · intro hy
    exact ⟨Or.inr hy, hafter y hy⟩
  · rintro ⟨hy | hy, hle⟩
    · exact absurd (hbefore y hy) (not_lt.mpr hle)
    · exact hy

/-! ### First elements and sizes -/

theorem first_le {s : OrderedSet α} {x y : α} (h : s.first = some x) (hy : y ∈ s) : x ≤ y := by
  obtain ⟨l, hsorted⟩ := s
  cases l with
  | nil => cases h
  | cons z zs =>
      cases h
      rcases List.mem_cons.mp hy with rfl | hy
      · exact le_rfl
      · exact ((List.pairwise_cons.mp hsorted).1 y hy).le

theorem mem_of_first {s : OrderedSet α} {x : α} (h : s.first = some x) : x ∈ s := List.mem_of_mem_head? h

/-- Two sets whose elements have the same distinct names have the same size. -/
theorem size_eq {γ : Type*} {s : OrderedSet α} {t : OrderedSet β} (f : α → γ) (g : β → γ)
    (hf : (s.toList.map f).Nodup) (hg : (t.toList.map g).Nodup)
    (h : ∀ c, (∃ x ∈ s, f x = c) ↔ ∃ y ∈ t, g y = c) : s.size = t.size := by
  have hperm : (s.toList.map f).Perm (t.toList.map g) := by
    refine (List.perm_ext_iff_of_nodup hf hg).mpr fun c => ?_
    rw [List.mem_map, List.mem_map]
    exact h c
  have hlen := hperm.length_eq
  rwa [List.length_map, List.length_map] at hlen

end OrderedSet
