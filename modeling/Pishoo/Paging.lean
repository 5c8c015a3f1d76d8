import Mathlib.Data.List.Basic

namespace Pishoo.Paging

variable {α : Type}

/-- Page `i` of a list, counted from zero. -/
def slice (items : List α) (size i : Nat) : List α := (items.drop (i * size)).take size

theorem flatMap_slice (items : List α) (size k : Nat) :
    (List.range k).flatMap (slice items size) = items.take (k * size) := by
  induction k with
  | zero => simp
  | succ k ih =>
      rw [List.range_succ, List.flatMap_append, ih, Nat.succ_mul, List.take_add]
      simp [slice]

theorem slice_eq_nil {items : List α} {size i : Nat} (hsize : 0 < size) :
    slice items size i = [] ↔ items.length ≤ i * size := by
  rw [slice, List.take_eq_nil_iff, or_iff_right (Nat.pos_iff_ne_zero.mp hsize), List.drop_eq_nil_iff]

theorem slice_subset (items : List α) (size i : Nat) : slice items size i ⊆ items :=
  fun _ hx => List.drop_subset _ _ (List.take_subset _ _ hx)

theorem mem_slice {items : List α} {size : Nat} (hsize : 0 < size) {x : α} (hx : x ∈ items) :
    ∃ i, i * size < items.length ∧ x ∈ slice items size i := by
  obtain ⟨n, hn, rfl⟩ := List.mem_iff_getElem.mp hx
  have hdiv : n / size * size ≤ n := Nat.div_mul_le_self n size
  have hmod : n % size < size := Nat.mod_lt n hsize
  have hsplit : n / size * size + n % size = n := Nat.div_add_mod' n size
  refine ⟨n / size, Nat.lt_of_le_of_lt hdiv hn, List.mem_iff_getElem.mpr ⟨n % size, ?_, ?_⟩⟩
  · simp only [slice, List.length_take, List.length_drop]
    omega
  · simp only [slice, List.getElem_take, List.getElem_drop, hsplit]

end Pishoo.Paging
