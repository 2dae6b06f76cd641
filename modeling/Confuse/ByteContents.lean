import Mathlib.Data.List.Basic
import Mathlib.Data.List.Induction

/-!
# Contents that grow, shrink and are overwritten

A list of cells is resized, with a default for the new cells, and overwritten from an offset on. What
a cell holds after some changes is what the last change that reached it left there.
-/

namespace Contents

variable {α : Type}

/-- Cut off, or fill up with `d`. -/
def resize (n : ℕ) (d : α) (l : List α) : List α := l.take n ++ List.replicate (n - l.length) d

/-- Put `new` in the place of the cells from `offset` on. -/
def overwrite (offset : ℕ) (new l : List α) : List α :=
  l.take offset ++ new ++ l.drop (offset + new.length)

/-- Overwrite, after filling up where the new cells do not fit. -/
def put (d : α) (offset : ℕ) (new l : List α) : List α :=
  overwrite offset new
    (if l.length < offset + new.length then resize (offset + new.length) d l else l)

theorem length_resize (n : ℕ) (d : α) (l : List α) : (resize n d l).length = n := by
  rw [resize, List.length_append, List.length_take, List.length_replicate]
  omega

theorem getElem?_resize (n : ℕ) (d : α) (l : List α) (i : ℕ) :
    (resize n d l)[i]? = if i < n then some (l[i]?.getD d) else none := by
  unfold resize
  by_cases hi : i < l.length
  · rw [List.getElem?_eq_getElem hi, Option.getD_some]
    by_cases hn : i < n
    · rw [if_pos hn, List.getElem?_append_left (by rw [List.length_take]; omega),
        List.getElem?_take_of_lt hn, List.getElem?_eq_getElem hi]
    · rw [if_neg hn]
      refine List.getElem?_eq_none ?_
      rw [List.length_append, List.length_take, List.length_replicate]
      omega
  · have hnone : l[i]? = none := List.getElem?_eq_none (by omega)
    rw [hnone, Option.getD_none, List.getElem?_append_right (by rw [List.length_take]; omega),
      List.length_take, List.getElem?_replicate]
    by_cases hn : i < n
    · rw [if_pos hn, if_pos (by omega)]
    · rw [if_neg hn, if_neg (by omega)]

/-- Where the new cells fit. -/
theorem getElem?_overwrite {offset : ℕ} {new l : List α} (hfits : offset + new.length ≤ l.length)
    (i : ℕ) : (overwrite offset new l)[i]?
      = if offset ≤ i ∧ i < offset + new.length then new[i - offset]? else l[i]? := by
  unfold overwrite
  have htake : (l.take offset).length = offset := by
    rw [List.length_take]
    omega
  rw [List.append_assoc]
  by_cases hbefore : i < offset
  · rw [if_neg (by omega), List.getElem?_append_left (by omega), List.getElem?_take_of_lt hbefore]
  · rw [List.getElem?_append_right (by omega), htake]
    by_cases hin : i < offset + new.length
    · rw [if_pos ⟨by omega, hin⟩, List.getElem?_append_left (by omega)]
    · rw [if_neg (by omega), List.getElem?_append_right (by omega), List.getElem?_drop]
      congr 1
      omega

theorem getElem?_put (d : α) (offset : ℕ) (new l : List α) (i : ℕ) :
    (put d offset new l)[i]? = if i < offset + new.length then
      (if offset ≤ i then new[i - offset]? else some (l[i]?.getD d)) else l[i]? := by
  unfold put
  by_cases hgrow : l.length < offset + new.length
  · rw [if_pos hgrow, getElem?_overwrite (Nat.le_of_eq (length_resize _ d l).symm), getElem?_resize]
    by_cases hi : i < offset + new.length
    · rw [if_pos hi, if_pos hi]
      by_cases hoffset : offset ≤ i
      · rw [if_pos ⟨hoffset, hi⟩, if_pos hoffset]
      · rw [if_neg fun h => hoffset h.1, if_neg hoffset]
    · rw [if_neg fun h => hi h.2, if_neg hi, if_neg hi, List.getElem?_eq_none (by omega)]
  · rw [if_neg hgrow, getElem?_overwrite (by omega)]
    by_cases hi : i < offset + new.length
    · rw [if_pos hi]
      by_cases hoffset : offset ≤ i
      · rw [if_pos ⟨hoffset, hi⟩, if_pos hoffset]
      · rw [if_neg fun h => hoffset h.1, if_neg hoffset, List.getElem?_eq_getElem (by omega),
          Option.getD_some]
    · rw [if_neg fun h => hi h.2, if_neg hi]

/-! ## Histories -/

inductive Change (α : Type)
  | put (offset : ℕ) (new : List α)
  | resize (n : ℕ)

def Change.apply (d : α) : Change α → List α → List α
  | .put offset new, l => Contents.put d offset new l
  | .resize n, l => Contents.resize n d l

/-- What changes leave, one after the other. -/
def contents (d : α) (changes : List (Change α)) : List α :=
  changes.foldl (fun l change => change.apply d l) []

/-- What a cell holds after changes, the last of them first. -/
def cell (d : α) : List (Change α) → ℕ → Option α
  | [], _ => none
  | .put offset new :: older, i =>
      if i < offset + new.length then
        (if offset ≤ i then new[i - offset]? else some ((cell d older i).getD d))
      else cell d older i
  | .resize n :: older, i => if i < n then some ((cell d older i).getD d) else none

/-- The number of cells after changes, the last of them first. -/
def size : List (Change α) → ℕ
  | [] => 0
  | .put offset new :: older => max (size older) (offset + new.length)
  | .resize n :: _ => n

/-- Where the cells end that a change is about. -/
def Change.reach : Change α → ℕ
  | .put offset new => offset + new.length
  | .resize n => n

theorem size_le {n : ℕ} {changes : List (Change α)} (h : ∀ change ∈ changes, change.reach ≤ n) :
    size changes ≤ n := by
  induction changes with
  | nil => exact Nat.zero_le n
  | cons change older ih =>
      rw [List.forall_mem_cons] at h
      cases change with
      | put offset new => exact Nat.max_le.mpr ⟨ih h.2, h.1⟩
      | resize m => exact h.1

theorem contents_append_singleton (d : α) (changes : List (Change α)) (change : Change α) :
    contents d (changes ++ [change]) = change.apply d (contents d changes) := by
  rw [contents, List.foldl_append]
  rfl

/-- The contents are those of the cells. -/
theorem getElem?_contents (d : α) (changes : List (Change α)) (i : ℕ) :
    (contents d changes)[i]? = cell d changes.reverse i := by
  induction changes using List.reverseRecOn generalizing i with
  | nil => rfl
  | append_singleton changes change ih =>
      rw [contents_append_singleton, List.reverse_append]
      cases change with
      | put offset new =>
          change (put d offset new (contents d changes))[i]? = cell d (.put offset new :: changes.reverse) i
          rw [getElem?_put, cell, ih]
      | resize n =>
          change (resize n d (contents d changes))[i]? = cell d (.resize n :: changes.reverse) i
          rw [getElem?_resize, cell, ih]

theorem length_put (d : α) (offset : ℕ) (new l : List α) :
    (put d offset new l).length = max l.length (offset + new.length) := by
  unfold put overwrite
  split_ifs with hgrow
  · rw [List.length_append, List.length_append, List.length_take, List.length_drop, length_resize]
    omega
  · rw [List.length_append, List.length_append, List.length_take, List.length_drop]
    omega

theorem length_contents (d : α) (changes : List (Change α)) :
    (contents d changes).length = size changes.reverse := by
  induction changes using List.reverseRecOn with
  | nil => rfl
  | append_singleton changes change ih =>
      rw [contents_append_singleton, List.reverse_append]
      cases change with
      | put offset new => exact (length_put ..).trans (congrArg (max · _) ih)
      | resize n => exact length_resize n d _

end Contents
