import Mathlib.Data.List.Basic
import Mathlib.Data.Nat.Notation
import Mathlib.Tactic.Common

/-!
# Reading bytes

A reader takes bytes off the front of a list and fails where they are missing or wrong. `Reads r l a`
says that `r` takes exactly the bytes `l` and returns `a`; a record is then read one field after the
other. `within` reads a part whose length was announced before it, and nothing of it may be left.
-/

abbrev ByteReader (α : Type) := StateT (List UInt8) Option α

namespace ByteReader

variable {α β : Type}

def byte : ByteReader UInt8 := fun
  | [] => none
  | b :: rest => some (b, rest)

/-- The next `n` bytes. -/
def bytes (n : ℕ) : ByteReader (List UInt8) := fun input =>
  if n ≤ input.length then some (input.take n, input.drop n) else none

/-- The number whose least significant byte comes first. -/
def leValue : List UInt8 → ℕ
  | [] => 0
  | b :: rest => b.toNat + 256 * leValue rest

/-- The number whose most significant byte comes first. -/
def beValue (l : List UInt8) : ℕ := leValue l.reverse

def u16 : ByteReader UInt16 := do
  let l ← bytes 2
  pure (.ofNat (leValue l))

def u32 : ByteReader UInt32 := do
  let l ← bytes 4
  pure (.ofNat (leValue l))

/-- Go on only if `p` holds. -/
def check (p : Prop) [Decidable p] : ByteReader Unit := if p then pure () else failure

/-- `n` records of one kind. -/
def times (r : ByteReader α) : ℕ → ByteReader (List α)
  | 0 => pure []
  | n + 1 => do
      let a ← r
      let rest ← times r n
      pure (a :: rest)

/-- A part of `n` bytes, all of which `r` takes. -/
def within (n : ℕ) (r : ByteReader α) : ByteReader α := do
  let part ← bytes n
  match r part with
  | some (a, []) => pure a
  | _ => failure

/-- What a reader takes at an offset, with the offset behind it. -/
def readAt (buffer : List UInt8) (offset : ℕ) (r : ByteReader α) : Option (α × ℕ) :=
  if offset ≤ buffer.length then
    (r (buffer.drop offset)).map fun taken => (taken.1, buffer.length - taken.2.length)
  else none

/-! ## Numbers -/

theorem leValue_uint16 (v : UInt16) : leValue [v.toUInt8, (v >>> 8).toUInt8] = v.toNat := by
  have hv := v.toNat_lt
  simp only [leValue, UInt16.toNat_toUInt8, UInt16.toNat_shiftRight, Nat.shiftRight_eq_div_pow,
    UInt16.reduceToNat, Nat.reduceMod, Nat.reducePow]
  omega

theorem leValue_uint32 (v : UInt32) :
    leValue [v.toUInt8, (v >>> 8).toUInt8, (v >>> 16).toUInt8, (v >>> 24).toUInt8] = v.toNat := by
  have hv := v.toNat_lt
  simp only [leValue, UInt32.toNat_toUInt8, UInt32.toNat_shiftRight, Nat.shiftRight_eq_div_pow,
    UInt32.reduceToNat, Nat.reduceMod, Nat.reducePow]
  omega

/-! ## What a reader takes -/

/-- The reader takes these bytes, whatever follows them, and returns `a`. -/
def Reads (r : ByteReader α) (l : List UInt8) (a : α) : Prop :=
  ∀ rest, r (l ++ rest) = some (a, rest)

namespace Reads
variable {r : ByteReader α} {l l' : List UInt8} {a : α}

theorem pure (a : α) : Reads (Pure.pure a) [] a := fun _ => rfl

theorem bind {f : α → ByteReader β} {b : β} (hr : Reads r l a) (hf : Reads (f a) l' b) :
    Reads (r >>= f) (l ++ l') b := by
  intro rest
  change (r (l ++ l' ++ rest)).bind (fun taken => f taken.1 taken.2) = _
  rw [List.append_assoc, hr]
  exact hf rest

/-- A step that takes nothing. -/
theorem next {f : α → ByteReader β} {b : β} (hr : Reads r [] a) (hf : Reads (f a) l b) :
    Reads (r >>= f) l b := bind hr hf

theorem check {p : Prop} [Decidable p] (hp : p) : Reads (check p) [] () := by
  rw [ByteReader.check, if_pos hp]
  exact pure ()

theorem byte (b : UInt8) : Reads byte [b] b := fun _ => rfl

theorem bytes {n : ℕ} (hn : l.length = n) : Reads (bytes n) l l := by
  intro rest
  rw [ByteReader.bytes, if_pos (by simp [hn]), ← hn, List.take_left, List.drop_left]

theorem u16 {v : UInt16} (hlength : l.length = 2) (hv : leValue l = v.toNat) : Reads u16 l v := by
  have hread := (bytes hlength).bind (f := fun l => Pure.pure (UInt16.ofNat (leValue l))) (pure _)
  rwa [List.append_nil, hv, UInt16.ofNat_toNat] at hread

theorem u32 {v : UInt32} (hlength : l.length = 4) (hv : leValue l = v.toNat) : Reads u32 l v := by
  have hread := (bytes hlength).bind (f := fun l => Pure.pure (UInt32.ofNat (leValue l))) (pure _)
  rwa [List.append_nil, hv, UInt32.ofNat_toNat] at hread

theorem times_zero (r : ByteReader α) : Reads (times r 0) [] [] := pure []

theorem times_succ {n : ℕ} {as : List α} (hr : Reads r l a) (hrest : Reads (times r n) l' as) :
    Reads (times r (n + 1)) (l ++ l') (a :: as) := by
  have hread := hr.bind (f := fun a => do
    let rest ← times r n
    Pure.pure (a :: rest)) (hrest.bind (pure (a :: as)))
  rwa [List.append_nil] at hread

theorem within {n : ℕ} (hn : l.length = n) (hr : Reads r l a) : Reads (within n r) l a := by
  intro rest
  have hpart := hr []
  rw [List.append_nil] at hpart
  change (ByteReader.bytes n (l ++ rest)).bind _ = _
  rw [bytes hn]
  simp only [Option.bind_some, hpart]
  rfl

end Reads

theorem readAt_append {r : ByteReader α} {l : List UInt8} {a : α} (hr : Reads r l a)
    {before after buffer : List UInt8} (hbuffer : buffer = before ++ (l ++ after)) {offset : ℕ}
    (hoffset : before.length = offset) : readAt buffer offset r = some (a, offset + l.length) := by
  subst hbuffer
  rw [readAt, if_pos (by simp [hoffset]), ← hoffset, List.drop_left, hr after]
  simp only [Option.map_some, List.length_append]
  congr 2
  omega

/-- Parts, each from an offset to the next one, that lie one after the other without a gap. -/
def Contiguous : ℕ → List (ℕ × ℕ) → ℕ → Prop
  | start, [], stop => start = stop
  | start, (offset, next) :: rest, stop => offset = start ∧ offset ≤ next ∧ Contiguous next rest stop

end ByteReader
