import Mathlib.Data.List.Basic
import Mathlib.Data.List.Induction
import Mathlib.Data.Nat.Notation
import Mathlib.Tactic.Common

/-!
# Strings of the adapter

`Str` is a Rust `String`, `OsStr` a Windows `OsStr` (code points that may include unpaired
surrogates) and `U16CStr` a NUL-free sequence of 16-bit units. Lower-casing is Unicode's and enters
as a `CaseFold`: of it the path code relies only on idempotence and on path components staying
path components.
-/

namespace Confuse

abbrev Str := List Char

/-- The bytes of a string. -/
def utf8 (s : Str) : List UInt8 := s.flatMap String.utf8EncodeChar

/-- A code point of a Windows string: a scalar value or an unpaired surrogate. -/
inductive CodePoint
  | scalar (c : Char)
  | surrogate (u : UInt16)
  deriving DecidableEq, Repr

structure OsStr where
  points : List CodePoint
  deriving DecidableEq, Repr

def CodePoint.lossy : CodePoint → Char
  | .scalar c => c
  | .surrogate _ => '\uFFFD'

namespace OsStr

def new (s : Str) : OsStr := ⟨s.map .scalar⟩

def toStringLossy (s : OsStr) : Str := s.points.map CodePoint.lossy

@[simp] theorem toStringLossy_new (s : Str) : (new s).toStringLossy = s := by
  simp [new, toStringLossy, Function.comp_def, CodePoint.lossy]

end OsStr

/-- A UTF-16 string without NUL units. -/
structure U16CStr where
  units : List UInt16
  nonzero : ∀ u ∈ units, u ≠ 0
  deriving DecidableEq

def isLead (u : UInt16) : Bool := 0xD800 ≤ u.toNat && u.toNat < 0xDC00

def isTrail (u : UInt16) : Bool := 0xDC00 ≤ u.toNat && u.toNat < 0xE000

/-- The scalar value of a surrogate pair. -/
def joinPair (u v : UInt16) : Char :=
  Char.ofNat (0x10000 + (u.toNat - 0xD800) * 0x400 + (v.toNat - 0xDC00))

def decodeUnit (u : UInt16) : CodePoint :=
  if isLead u || isTrail u then .surrogate u else .scalar (Char.ofNat u.toNat)

def decodeUtf16 : List UInt16 → List CodePoint
  | [] => []
  | [u] => [decodeUnit u]
  | u :: v :: rest =>
      if isLead u && isTrail v then .scalar (joinPair u v) :: decodeUtf16 rest
      else decodeUnit u :: decodeUtf16 (v :: rest)

def encodeChar (c : Char) : List UInt16 :=
  if c.toNat < 0x10000 then [UInt16.ofNat c.toNat]
  else [UInt16.ofNat (0xD800 + (c.toNat - 0x10000) / 0x400),
    UInt16.ofNat (0xDC00 + (c.toNat - 0x10000) % 0x400)]

def encodeUtf16 (s : Str) : List UInt16 := s.flatMap encodeChar

theorem char_toNat_valid (c : Char) : c.toNat < 0xD800 ∨ 0xDFFF < c.toNat ∧ c.toNat < 0x110000 :=
  c.valid

theorem decode_singleton {u : UInt16} (hl : isLead u = false) (ht : isTrail u = false)
    (rest : List UInt16) :
    decodeUtf16 (u :: rest) = .scalar (Char.ofNat u.toNat) :: decodeUtf16 rest := by
  cases rest with
  | nil => simp [decodeUtf16, decodeUnit, hl, ht]
  | cons v rest => simp [decodeUtf16, decodeUnit, hl, ht]

theorem decode_encodeChar (c : Char) (rest : List UInt16) :
    decodeUtf16 (encodeChar c ++ rest) = .scalar c :: decodeUtf16 rest := by
  have hc := char_toNat_valid c
  unfold encodeChar
  split_ifs with hsmall
  · have hu : (UInt16.ofNat c.toNat).toNat = c.toNat := by
      simp only [UInt16.toNat_ofNat']
      omega
    have hl : isLead (UInt16.ofNat c.toNat) = false := by
      simp only [isLead, hu, Bool.and_eq_false_iff, decide_eq_false_iff_not]
      omega
    have ht : isTrail (UInt16.ofNat c.toNat) = false := by
      simp only [isTrail, hu, Bool.and_eq_false_iff, decide_eq_false_iff_not]
      omega
    rw [List.singleton_append, decode_singleton hl ht, hu, Char.ofNat_toNat]
  · let hi := 0xD800 + (c.toNat - 0x10000) / 0x400
    let lo := 0xDC00 + (c.toNat - 0x10000) % 0x400
    have hhi : (UInt16.ofNat hi).toNat = hi := by
      simp only [UInt16.toNat_ofNat', hi]
      omega
    have hlo : (UInt16.ofNat lo).toNat = lo := by
      simp only [UInt16.toNat_ofNat', lo]
      omega
    have hl : isLead (UInt16.ofNat hi) = true := by
      simp only [isLead, hhi, Bool.and_eq_true, decide_eq_true_eq, hi]
      omega
    have ht : isTrail (UInt16.ofNat lo) = true := by
      simp only [isTrail, hlo, Bool.and_eq_true, decide_eq_true_eq, lo]
      omega
    have hj : joinPair (UInt16.ofNat hi) (UInt16.ofNat lo) = c := by
      have hn : 0x10000 + (hi - 0xD800) * 0x400 + (lo - 0xDC00) = c.toNat := by
        simp only [hi, lo]
        omega
      rw [joinPair, hhi, hlo, hn, Char.ofNat_toNat]
    change decodeUtf16 (UInt16.ofNat hi :: UInt16.ofNat lo :: rest) = _
    simp only [decodeUtf16, hl, ht, Bool.and_self, if_true, hj]

theorem decode_encode (s : Str) : decodeUtf16 (encodeUtf16 s) = s.map .scalar := by
  induction s with
  | nil => rfl
  | cons c s ih =>
      change decodeUtf16 (encodeChar c ++ encodeUtf16 s) = _
      rw [decode_encodeChar, ih]
      rfl

theorem encodeChar_nonzero {c : Char} (hc : c ≠ '\x00') : ∀ u ∈ encodeChar c, u ≠ 0 := by
  have hv := char_toNat_valid c
  have hne : c.toNat ≠ 0 := fun h => hc (Char.toNat_inj.mp h)
  intro u hu h0
  have hz : u.toNat = 0 := by simp [h0]
  unfold encodeChar at hu
  split_ifs at hu with hsmall
  · simp only [List.mem_singleton] at hu
    rw [hu, UInt16.toNat_ofNat'] at hz
    omega
  · simp only [List.mem_cons, List.not_mem_nil, or_false] at hu
    rcases hu with hu | hu <;> rw [hu, UInt16.toNat_ofNat'] at hz <;> omega

namespace U16CStr

def toStringLossy (s : U16CStr) : Str := (decodeUtf16 s.units).map CodePoint.lossy

/-- `U16CString::from_str`: a string with an interior NUL has no UTF-16 C string. -/
def fromStr (s : Str) : Option U16CStr :=
  if h : '\x00' ∈ s then none
  else some ⟨encodeUtf16 s, by
    intro u hu
    obtain ⟨c, hc, hu⟩ := List.mem_flatMap.mp hu
    exact encodeChar_nonzero (fun h0 => h (h0 ▸ hc)) u hu⟩

theorem toStringLossy_fromStr {s : Str} {t : U16CStr} (h : fromStr s = some t) :
    t.toStringLossy = s := by
  unfold fromStr at h
  split_ifs at h
  cases h
  simp [toStringLossy, decode_encode, Function.comp_def, CodePoint.lossy]

end U16CStr

def isSeparator (c : Char) : Bool := c == '\\' || c == '/'

/-- What is left of a path between separators once drive and dot components are gone. -/
structure IsComponent (s : Str) : Prop where
  nonempty : s ≠ []
  noSeparator : ∀ c ∈ s, isSeparator c = false
  noDrive : s.getLast? ≠ some ':'
  notDot : s ≠ ['.']
  notDotDot : s ≠ ['.', '.']

/-- `str::to_lowercase`. -/
structure CaseFold where
  toLowercase : Str → Str
  idempotent : ∀ s, toLowercase (toLowercase s) = toLowercase s
  isComponent : ∀ s, IsComponent s → IsComponent (toLowercase s)

/-- The characters that the path syntax gives a meaning. -/
def isSpecial (c : Char) : Bool := isSeparator c || c == ':' || c == '.'

/-- Folding character by character. -/
structure CharFold where
  fold : Char → Str
  nonempty : ∀ c, fold c ≠ []
  idempotent : ∀ c, (fold c).flatMap fold = fold c
  fixes : ∀ c, isSpecial c → fold c = [c]
  introducesNone : ∀ c d, d ∈ fold c → isSpecial d → d = c

namespace CharFold
variable (f : CharFold)

def lower (s : Str) : Str := s.flatMap f.fold

theorem lower_idempotent (s : Str) : f.lower (f.lower s) = f.lower s := by
  simp only [lower, List.flatMap_assoc, f.idempotent]

theorem mem_of_mem_lower {s : Str} {d : Char} (hd : d ∈ f.lower s) (hsp : isSpecial d) : d ∈ s := by
  obtain ⟨c, hc, hdc⟩ := List.mem_flatMap.mp hd
  rwa [f.introducesNone c d hdc hsp]

theorem lower_ne_nil {s : Str} (hs : s ≠ []) : f.lower s ≠ [] := by
  intro h
  obtain ⟨c, s', rfl⟩ := List.exists_cons_of_ne_nil hs
  exact f.nonempty c (List.flatMap_eq_nil_iff.mp h c List.mem_cons_self)

/-- Only one character folds to a lone special character, namely itself. -/
theorem eq_of_lower_eq_singleton {s : Str} {d : Char} (h : f.lower s = [d]) (hd : isSpecial d) :
    s = [d] := by
  cases s with
  | nil => cases h
  | cons c s =>
      have hc : f.fold c ++ f.lower s = [d] := h
      obtain ⟨x, xs, hx⟩ := List.exists_cons_of_ne_nil (f.nonempty c)
      rw [hx, List.cons_append, List.cons.injEq, List.append_eq_nil_iff] at hc
      obtain ⟨rfl, -, hs⟩ := hc
      have hcx := f.introducesNone c x (by simp [hx]) hd
      have hnil : s = [] := by
        by_contra hne
        exact f.lower_ne_nil hne hs
      rw [hcx, hnil]

theorem getLast?_lower {s : Str} {d : Char} (h : (f.lower s).getLast? = some d)
    (hd : isSpecial d) : s.getLast? = some d := by
  induction s using List.reverseRecOn with
  | nil => cases h
  | append_singleton s c _ =>
      have hl : f.lower (s ++ [c]) = f.lower s ++ f.fold c := by simp [lower]
      rw [hl, List.getLast?_append, Option.or_of_isSome (by simp [f.nonempty c])] at h
      rw [List.getLast?_concat, f.introducesNone c d (List.mem_of_getLast? h) hd]

theorem isComponent_lower {s : Str} (hs : IsComponent s) : IsComponent (f.lower s) where
  nonempty := f.lower_ne_nil hs.nonempty
  noSeparator := by
    intro d hd
    by_contra hsep
    have hsp : isSpecial d := by simp [isSpecial, Bool.of_not_eq_false hsep]
    exact hsep (hs.noSeparator d (f.mem_of_mem_lower hd hsp))
  noDrive h := hs.noDrive (f.getLast?_lower h (by decide))
  notDot h := hs.notDot (f.eq_of_lower_eq_singleton h (by decide))
  notDotDot := by
    intro h
    cases s with
    | nil => cases h
    | cons c s =>
        have hc : f.fold c ++ f.lower s = ['.', '.'] := h
        have hdot : c = '.' := by
          obtain ⟨x, xs, hx⟩ := List.exists_cons_of_ne_nil (f.nonempty c)
          rw [hx, List.cons_append, List.cons.injEq] at hc
          exact (f.introducesNone c '.' (by simp [hx, hc.1]) (by decide)).symm
        subst c
        rw [f.fixes '.' (by decide), List.singleton_append, List.cons.injEq] at hc
        exact hs.notDotDot (by rw [f.eq_of_lower_eq_singleton hc.2 (by decide)])

def toCaseFold : CaseFold where
  toLowercase := f.lower
  idempotent := f.lower_idempotent
  isComponent _ := f.isComponent_lower

/-- Folding of the Latin capitals alone. -/
def asciiLower (c : Char) : Char :=
  if 65 ≤ c.toNat ∧ c.toNat ≤ 90 then Char.ofNat (c.toNat + 32) else c

theorem asciiLower_toNat (c : Char) :
    (asciiLower c).toNat = if 65 ≤ c.toNat ∧ c.toNat ≤ 90 then c.toNat + 32 else c.toNat := by
  unfold asciiLower
  split_ifs with h
  · have hv : (c.toNat + 32).isValidChar := Or.inl (by omega)
    rw [Char.ofNat, dif_pos hv]
    rfl
  · rfl

theorem isSpecial_toNat {c : Char} (h : isSpecial c) :
    c.toNat = 92 ∨ c.toNat = 47 ∨ c.toNat = 58 ∨ c.toNat = 46 := by
  have hc : c = '\\' ∨ c = '/' ∨ c = ':' ∨ c = '.' := by
    simpa [isSpecial, isSeparator, or_assoc] using h
  rcases hc with rfl | rfl | rfl | rfl <;> decide

def ascii : CharFold where
  fold c := [asciiLower c]
  nonempty _ := by simp
  idempotent c := by
    have h : asciiLower (asciiLower c) = asciiLower c := by
      apply Char.toNat_inj.mp
      rw [asciiLower_toNat, asciiLower_toNat]
      split_ifs <;> omega
    simp [h]
  fixes c hc := by
    have h := isSpecial_toNat hc
    rw [asciiLower, if_neg (by omega)]
  introducesNone c d hd hsp := by
    obtain rfl : d = asciiLower c := by simpa using hd
    have h := isSpecial_toNat hsp
    rw [asciiLower_toNat] at h
    rw [asciiLower, if_neg]
    intro hc
    rw [if_pos hc] at h
    omega

end CharFold
end Confuse
