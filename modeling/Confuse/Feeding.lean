import Mathlib.Data.List.Basic
import Mathlib.Tactic.TypeStar

/-!
# Feeding a consumer

Items are offered to a consumer one after the other until it refuses one. What happens depends on the
items, on the consumer and on its state alone, so two producers of the same items cannot be told apart.
-/

namespace Feeding

variable {ι κ σ : Type*}

/-- What was offered, what of it was accepted, and the consumer's state after it. -/
structure Fed (ι σ : Type*) where
  offered : List ι
  accepted : List ι
  state : σ

/-- Offer the items until one is refused. -/
def feed (accept : ι → σ → Bool × σ) : List ι → σ → Fed ι σ
  | [], s => ⟨[], [], s⟩
  | i :: rest, s =>
      if (accept i s).1 then
        let fed := feed accept rest (accept i s).2
        ⟨i :: fed.offered, i :: fed.accepted, fed.state⟩
      else ⟨[i], [], (accept i s).2⟩

section Feed
variable {accept : ι → σ → Bool × σ} {i : ι} {rest : List ι} {s : σ}

@[simp] theorem feed_nil : feed accept [] s = ⟨[], [], s⟩ := rfl

theorem feed_accepted (h : (accept i s).1 = true) : feed accept (i :: rest) s
    = ⟨i :: (feed accept rest (accept i s).2).offered, i :: (feed accept rest (accept i s).2).accepted,
      (feed accept rest (accept i s).2).state⟩ := if_pos h

theorem feed_refused (h : (accept i s).1 = false) :
    feed accept (i :: rest) s = ⟨[i], [], (accept i s).2⟩ := if_neg (by simp [h])

end Feed
end Feeding
