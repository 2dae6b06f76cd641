import Mathlib.Algebra.BigOperators.Group.List.Basic
import Mathlib.Algebra.GroupWithZero.Nat
import Mathlib.Data.List.Infix
import Mathlib.Tactic.Common

/-!
# A store with a capacity

Items are offered to a store one after the other, and each has a weight. The first item that does not
fit closes the store for good, and it may be closed before that. What it holds in the end is the longest
initial segment of the items offered before it was closed that fits.
-/

namespace Capacity

variable {ε : Type} (weight : ε → ℕ) (capacity : ℕ)

def load (items : List ε) : ℕ := (items.map weight).sum

structure Store (ε : Type) where
  items : List ε
  closed : Bool

inductive Offer (ε : Type)
  | item (e : ε)
  | close

/-- `true` if the item is refused. -/
def Store.add (s : Store ε) (e : ε) : Bool × Store ε :=
  if s.closed then (true, s)
  else if capacity < load weight s.items + weight e then (true, { s with closed := true })
  else (false, { s with items := s.items ++ [e] })

/-- The answers to the items, and the store that is left. -/
def Store.run : List (Offer ε) → Store ε → List Bool × Store ε
  | [], s => ([], s)
  | .close :: rest, s => run rest { s with closed := true }
  | .item e :: rest, s =>
      ((s.add weight capacity e).1 :: (run rest (s.add weight capacity e).2).1,
        (run rest (s.add weight capacity e).2).2)

/-- All items that are offered. -/
def offered : List (Offer ε) → List ε
  | [] => []
  | .close :: rest => offered rest
  | .item e :: rest => e :: offered rest

/-- The items that are offered before the store is closed from outside. -/
def offeredOpen : List (Offer ε) → List ε
  | [] => []
  | .close :: _ => []
  | .item e :: rest => e :: offeredOpen rest

/-- What fits of the items, up to the first that does not. -/
def fill (weight : ε → ℕ) : ℕ → List ε → List ε
  | _, [] => []
  | room, e :: rest => if room < weight e then [] else e :: fill weight (room - weight e) rest

/-- Of the initial segments of the items that fit, the longest. -/
structure LongestFit (items held : List ε) : Prop where
  initial : held <+: items
  fits : load weight held ≤ capacity
  longest : ∀ other, other <+: items → load weight other ≤ capacity → other <+: held

theorem load_append_singleton (items : List ε) (e : ε) :
    load weight (items ++ [e]) = load weight items + weight e := by
  simp [load]

theorem load_cons (e : ε) (items : List ε) : load weight (e :: items) = weight e + load weight items :=
  List.sum_cons

theorem fill_longestFit (room : ℕ) (items : List ε) :
    LongestFit weight room items (fill weight room items) := by
  induction items generalizing room with
  | nil => exact ⟨List.prefix_refl [], Nat.zero_le room, fun other hother _ => hother⟩
  | cons e rest ih =>
      unfold fill
      split
      · rename_i hfull
        refine ⟨List.nil_prefix, Nat.zero_le room, fun other hother hfits => ?_⟩
        obtain rfl | ⟨tail, rfl, -⟩ := List.prefix_cons_iff.mp hother
        · exact List.prefix_refl []
        · rw [load_cons] at hfits
          omega
      · rename_i hroom
        have hrest := ih (room - weight e)
        refine ⟨(List.prefix_cons_inj e).mpr hrest.initial, ?_, fun other hother hfits => ?_⟩
        · have hfits := hrest.fits
          rw [load_cons]
          omega
        · obtain rfl | ⟨tail, rfl, htail⟩ := List.prefix_cons_iff.mp hother
          · exact List.nil_prefix
          · rw [load_cons] at hfits
            exact (List.prefix_cons_inj e).mpr (hrest.longest tail htail (by omega))

/-- Where everything fits, everything is held. -/
theorem LongestFit.eq_of_fits {items held : List ε} (h : LongestFit weight capacity items held)
    (hfits : load weight items ≤ capacity) : held = items :=
  h.initial.eq_of_length_le (h.longest items (List.prefix_refl items) hfits).length_le

theorem load_offeredOpen_le (offers : List (Offer ε)) :
    load weight (offeredOpen offers) ≤ load weight (offered offers) := by
  induction offers with
  | nil => exact Nat.le_refl 0
  | cons offer rest ih =>
      cases offer with
      | item e =>
          rw [offeredOpen, offered, load_cons, load_cons]
          exact Nat.add_le_add_left ih (weight e)
      | close => exact Nat.zero_le _

variable {weight capacity}

theorem Store.run_closed {s : Store ε} (hs : s.closed = true) (offers : List (Offer ε)) :
    s.run weight capacity offers = (List.replicate (offered offers).length true, s) := by
  induction offers generalizing s with
  | nil => rfl
  | cons offer rest ih =>
      cases offer with
      | close =>
          have hsame : { s with closed := true } = s := by rw [← hs]
          rw [Store.run, hsame]
          exact ih hs
      | item e =>
          have hadd : s.add weight capacity e = (true, s) := if_pos hs
          rw [Store.run, hadd, ih hs]
          rfl

/-- From an open store on, what fits is added and everything after that is refused. -/
theorem Store.run_open {s : Store ε} (hs : s.closed = false) (hload : load weight s.items ≤ capacity)
    (offers : List (Offer ε)) :
    (s.run weight capacity offers).2.items =
        s.items ++ fill weight (capacity - load weight s.items) (offeredOpen offers) ∧
      (s.run weight capacity offers).1 =
        List.replicate (fill weight (capacity - load weight s.items) (offeredOpen offers)).length false ++
          List.replicate ((offered offers).length -
            (fill weight (capacity - load weight s.items) (offeredOpen offers)).length) true := by
  induction offers generalizing s with
  | nil => exact ⟨(List.append_nil _).symm, rfl⟩
  | cons offer rest ih =>
      cases offer with
      | close =>
          rw [Store.run, Store.run_closed rfl]
          exact ⟨(List.append_nil _).symm, rfl⟩
      | item e =>
          by_cases hfits : capacity < load weight s.items + weight e
          · have hadd : s.add weight capacity e = (true, { s with closed := true }) := by
              rw [Store.add, hs, if_neg Bool.false_ne_true, if_pos hfits]
            have hfill : fill weight (capacity - load weight s.items) (offeredOpen (.item e :: rest)) =
                [] := if_pos (by omega)
            rw [Store.run, hadd, Store.run_closed rfl, hfill]
            exact ⟨(List.append_nil _).symm, rfl⟩
          · have hadd : s.add weight capacity e = (false, { s with items := s.items ++ [e] }) := by
              rw [Store.add, hs, if_neg Bool.false_ne_true, if_neg hfits]
            have hfill : fill weight (capacity - load weight s.items) (offeredOpen (.item e :: rest)) =
                e :: fill weight (capacity - load weight (s.items ++ [e])) (offeredOpen rest) := by
              rw [offeredOpen, fill, if_neg (by omega), load_append_singleton, Nat.sub_sub]
            obtain ⟨hitems, hanswers⟩ := ih (s := { s with items := s.items ++ [e] }) hs
              (by rw [load_append_singleton]; omega)
            rw [Store.run, hadd, hfill]
            constructor
            · rw [hitems, List.append_assoc]
              rfl
            · rw [hanswers, offered, List.length_cons, List.length_cons, Nat.add_sub_add_right]
              rfl

variable (weight capacity)

/-- The whole run of a store that starts empty. -/
theorem Store.run_empty (offers : List (Offer ε)) :
    LongestFit weight capacity (offeredOpen offers)
        (Store.run weight capacity offers ⟨[], false⟩).2.items ∧
      (Store.run weight capacity offers ⟨[], false⟩).1 =
        List.replicate (Store.run weight capacity offers ⟨[], false⟩).2.items.length false ++
          List.replicate ((offered offers).length -
            (Store.run weight capacity offers ⟨[], false⟩).2.items.length) true := by
  have hopen : (Store.mk ([] : List ε) false).closed = false := rfl
  obtain ⟨hitems, hanswers⟩ := Store.run_open hopen (Nat.zero_le capacity) offers
  rw [hitems]
  exact ⟨fill_longestFit weight capacity (offeredOpen offers), hanswers⟩

end Capacity
