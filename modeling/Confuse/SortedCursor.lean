import Mathlib.Data.List.Basic
import Mathlib.Order.Lattice

/-!
# Cursors into sorted lists

A list is read in portions. A cursor is the key of the last item taken, and the next portion begins
with the items whose keys are greater. When the keys increase, the portions joined together are a
prefix of the list.
-/

namespace SortedCursor

variable {α κ : Type*}

/-! ## Positions -/

section Positions
variable (key : α → κ) (start : κ) (items : List α)

/-- The cursor behind the first `n` items. -/
def position (n : ℕ) : κ := ((items.take n).getLast?.map key).getD start

@[simp] theorem position_zero : position key start items 0 = start := rfl

/-- Taking some items of those behind a position leads to the position behind them. -/
theorem position_add (n m : ℕ) : position key start items (n + m)
    = (((items.drop n).take m).getLast?.map key).getD (position key start items n) := by
  unfold position
  rw [List.take_add, List.getLast?_append]
  cases ((items.drop n).take m).getLast? <;> rfl

end Positions

/-! ## What comes after a cursor -/

variable [LinearOrder κ] {key : α → κ} {start : κ} {items : List α}

/-- The items with keys greater than a cursor. -/
def rest (key : α → κ) (items : List α) (cursor : κ) : List α :=
  items.filter fun a => cursor < key a

/-- The keys increase along the list and are greater than where a cursor starts. -/
structure Increasing (key : α → κ) (start : κ) (items : List α) : Prop where
  pairwise : items.Pairwise fun a b => key a < key b
  above : ∀ a ∈ items, start < key a

theorem Increasing.lt_of_mem_drop (h : Increasing key start items) {n : ℕ} {a : α}
    (ha : a ∈ items.drop n) : position key start items n < key a := by
  have hsplit : (items.take n ++ items.drop n).Pairwise fun a b => key a < key b := by
    rw [List.take_append_drop]
    exact h.pairwise
  unfold position
  cases hlast : (items.take n).getLast? with
  | none => exact h.above a (List.drop_subset n items ha)
  | some b => exact (List.pairwise_append.mp hsplit).2.2 b (List.mem_of_getLast? hlast) a ha

theorem Increasing.le_of_mem_take (h : Increasing key start items) {n : ℕ} {a : α}
    (ha : a ∈ items.take n) : key a ≤ position key start items n := by
  have htaken := h.pairwise.sublist (List.take_sublist n items)
  unfold position
  cases hlast : (items.take n).getLast? with
  | none => simp [List.getLast?_eq_none_iff.mp hlast] at ha
  | some b =>
      have hinit : items.take n = (items.take n).dropLast ++ [b] :=
        (List.dropLast_append_getLast? b hlast).symm
      rw [hinit] at ha htaken
      rcases List.mem_append.mp ha with hmem | hmem
      · exact le_of_lt ((List.pairwise_append.mp htaken).2.2 a hmem b (List.mem_singleton_self b))
      · rw [List.mem_singleton.mp hmem]
        exact le_refl _

/-- Behind a position come the items that were not taken. -/
theorem rest_position (h : Increasing key start items) (n : ℕ) :
    rest key items (position key start items n) = items.drop n := by
  unfold rest
  conv_lhs => rw [← List.take_append_drop n items]
  rw [List.filter_append, List.filter_eq_nil_iff.mpr fun a ha => by
      simpa using h.le_of_mem_take ha,
    List.filter_eq_self.mpr fun a ha => by simpa using h.lt_of_mem_drop ha, List.nil_append]

theorem rest_start (h : Increasing key start items) : rest key items start = items :=
  rest_position h 0

end SortedCursor
