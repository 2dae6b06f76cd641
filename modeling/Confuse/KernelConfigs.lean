import Confuse.Types
import Mathlib.Data.Nat.Log

/-!
# Negotiating the kernel configuration

A setter of `KernelConfig` stores a value and returns the one in effect before, or refuses it with
another one that it would take. The time granularity is searched among the powers of ten; the search
multiplies in `u128`, and `none` stands for an overflow there.
-/

namespace Confuse

structure InitFlags where
  bits : UInt64
  deriving DecidableEq, Repr

namespace InitFlags

def empty : InitFlags := ⟨0⟩

/-- The bits that are named. -/
def all : InitFlags := ⟨0x7FFFFFFFFFF⟩

def contains (flags other : InitFlags) : Bool := flags.bits &&& other.bits == other.bits

/-- The named bits that are not set. -/
def complement (flags : InitFlags) : InitFlags := ⟨~~~flags.bits &&& all.bits⟩

end InitFlags

structure Version where
  major : UInt32
  minor : UInt32
  deriving DecidableEq, Repr

structure KernelConfig where
  maxWrite : UInt32
  maxReadahead : UInt32
  maxMaxReadahead : UInt32
  capabilities : InitFlags
  requested : InitFlags
  maxBackground : UInt16
  congestionThreshold : Option UInt16
  timeGran : Duration
  maxStackDepth : UInt32
  kernelAbi : Version
  deriving DecidableEq

def defaultKernelConfig : KernelConfig where
  maxWrite := 128 * 1024
  maxReadahead := 128 * 1024
  maxMaxReadahead := 1024 * 1024
  capabilities := .empty
  requested := .empty
  maxBackground := 16
  congestionThreshold := none
  timeGran := .ofNanos 1
  maxStackDepth := 0
  kernelAbi := ⟨7, 40⟩

namespace Duration

def asSecs (d : Duration) : ℕ := d.nanos / 10 ^ 9

def subsecNanos (d : Duration) : ℕ := d.nanos % 10 ^ 9

/-- `Duration::new(0, nanos)`. -/
def newNanos (nanos : UInt32) : Duration :=
  ⟨nanos.toNat, nanos.toNat_lt.trans (by decide)⟩

end Duration

namespace KernelConfig

/-! ## Setters -/

/-- The common end of the setters. -/
def negotiate {κ : Type} (c : KernelConfig) (suggestion : Option κ) (previous : κ)
    (stored : KernelConfig) : Except κ κ × KernelConfig :=
  match suggestion with
  | some v => (.error v, c)
  | none => (.ok previous, stored)

def FILESYSTEM_MAX_STACK_DEPTH : UInt32 := 2

def MAX_WRITE_SIZE : UInt32 := 16 * 1024 * 1024

def setMaxStackDepth (c : KernelConfig) (value : UInt32) : Except UInt32 UInt32 × KernelConfig :=
  c.negotiate (if value > FILESYSTEM_MAX_STACK_DEPTH then some FILESYSTEM_MAX_STACK_DEPTH else none)
    c.maxStackDepth { c with maxStackDepth := value }

def setMaxWrite (c : KernelConfig) (value : UInt32) : Except UInt32 UInt32 × KernelConfig :=
  c.negotiate (if value = 0 then some 1 else if value > MAX_WRITE_SIZE then some MAX_WRITE_SIZE else none)
    c.maxWrite { c with maxWrite := value }

def setMaxReadahead (c : KernelConfig) (value : UInt32) : Except UInt32 UInt32 × KernelConfig :=
  c.negotiate
    (if value = 0 then some 1 else if value > c.maxMaxReadahead then some c.maxMaxReadahead else none)
    c.maxReadahead { c with maxReadahead := value }

def setMaxBackground (c : KernelConfig) (value : UInt16) : Except UInt16 UInt16 × KernelConfig :=
  c.negotiate (if value = 0 then some 1 else none) c.maxBackground { c with maxBackground := value }

def setCongestionThreshold (c : KernelConfig) (value : UInt16) :
    Except UInt16 UInt16 × KernelConfig :=
  c.negotiate (if value = 0 then some 1 else none)
    (min (c.congestionThreshold.getD (c.maxBackground.toUInt32 * 3 / 4).toUInt16) c.maxBackground)
    { c with congestionThreshold := some value }

/-- The loop of `set_time_granularity`: the granularity to suggest where it returns early. -/
def granularityLoop (nanos powerOf10 : ℕ) (hpos : 0 < powerOf10) : Option (Option Duration) :=
  if powerOf10 < nanos then
    if 2 ^ 128 ≤ powerOf10 * 10 then none
    else if nanos < powerOf10 * 10 then some (some (.newNanos (UInt32.ofNat powerOf10)))
    else granularityLoop nanos (powerOf10 * 10) (by omega)
  else some none
termination_by nanos - powerOf10

def setTimeGranularity (c : KernelConfig) (value : Duration) :
    Option (Except Duration Duration × KernelConfig) :=
  if value.nanos = 0 then some (.error (.newNanos 1), c)
  else if value.asSecs > 1 ∨ (value.asSecs = 1 ∧ value.subsecNanos > 0) then
    some (.error (.fromSecs 1), c)
  else
    (granularityLoop value.nanos 1 Nat.one_pos).map fun suggestion =>
      c.negotiate suggestion c.timeGran { c with timeGran := value }

def addCapabilities (c : KernelConfig) (capabilitiesToAdd : InitFlags) :
    Except InitFlags Unit × KernelConfig :=
  if c.capabilities.contains capabilitiesToAdd = false then
    (.error ⟨capabilitiesToAdd.bits &&& c.capabilities.complement.bits⟩, c)
  else (.ok (), { c with requested := ⟨c.requested.bits ||| capabilitiesToAdd.bits⟩ })

/-- A call of a setter. -/
inductive Setting
  | maxStackDepth (value : UInt32)
  | maxWrite (value : UInt32)
  | maxReadahead (value : UInt32)
  | maxBackground (value : UInt16)
  | congestionThreshold (value : UInt16)
  | timeGranularity (value : Duration)
  | capabilities (capabilitiesToAdd : InitFlags)

def Setting.apply : Setting → KernelConfig → Option KernelConfig
  | .maxStackDepth value, c => some (c.setMaxStackDepth value).2
  | .maxWrite value, c => some (c.setMaxWrite value).2
  | .maxReadahead value, c => some (c.setMaxReadahead value).2
  | .maxBackground value, c => some (c.setMaxBackground value).2
  | .congestionThreshold value, c => some (c.setCongestionThreshold value).2
  | .timeGranularity value, c => (c.setTimeGranularity value).map Prod.snd
  | .capabilities capabilitiesToAdd, c => some (c.addCapabilities capabilitiesToAdd).2

/-- The configurations that calls of setters lead to. -/
inductive Reachable : KernelConfig → Prop
  | default : Reachable defaultKernelConfig
  | set {c c' : KernelConfig} (s : Setting) (h : Reachable c) (hs : s.apply c = some c') : Reachable c'

/-! ## What stays -/

theorem negotiate_or {κ : Type} (c : KernelConfig) (suggestion : Option κ) (previous : κ)
    (stored : KernelConfig) : (c.negotiate suggestion previous stored).2 = c ∨
      (c.negotiate suggestion previous stored).2 = stored := by
  cases suggestion with
  | none => exact .inr rfl
  | some v => exact .inl rfl

/-- No setter moves the limit for the readahead. -/
theorem Setting.apply_maxMaxReadahead {s : Setting} {c c' : KernelConfig} (h : s.apply c = some c') :
    c'.maxMaxReadahead = c.maxMaxReadahead := by
  have hkeeps : ∀ {κ : Type} (suggestion : Option κ) (previous : κ) {stored : KernelConfig},
      stored.maxMaxReadahead = c.maxMaxReadahead →
        (c.negotiate suggestion previous stored).2.maxMaxReadahead = c.maxMaxReadahead := by
    intro κ suggestion previous stored hstored
    rcases c.negotiate_or suggestion previous stored with hsame | hstored'
    · rw [hsame]
    · rw [hstored', hstored]
  cases s with
  | timeGranularity value =>
      obtain ⟨⟨answer, c''⟩, hset, rfl⟩ := Option.map_eq_some_iff.mp h
      unfold setTimeGranularity at hset
      split_ifs at hset
      · cases hset
        rfl
      · cases hset
        rfl
      · obtain ⟨suggestion, -, hanswer⟩ := Option.map_eq_some_iff.mp hset
        rw [← congrArg Prod.snd hanswer]
        exact hkeeps _ _ rfl
  | capabilities capabilitiesToAdd =>
      cases h
      unfold addCapabilities
      split_ifs <;> rfl
  | _ =>
      cases h
      exact hkeeps _ _ rfl

theorem Reachable.maxMaxReadahead {c : KernelConfig} (h : c.Reachable) :
    c.maxMaxReadahead = 1024 * 1024 := by
  induction h with
  | default => rfl
  | set s _ hs ih => rw [Setting.apply_maxMaxReadahead hs, ih]

/-! ## The search for a granularity -/

/-- Powers of ten from a nanosecond to a second. -/
def IsGranularity (nanos : ℕ) : Prop := ∃ k ≤ 9, nanos = 10 ^ k

/-- From a power of ten on, the search ends at the greatest one that is not above the duration. -/
theorem granularityLoop_eq {nanos j powerOf10 : ℕ} (hpower : powerOf10 = 10 ^ j) (hpos : 0 < powerOf10)
    (hj : j ≤ Nat.log 10 nanos) (hnanos : nanos ≠ 0) (hroom : nanos * 10 < 2 ^ 128) :
    granularityLoop nanos powerOf10 hpos
      = some (if nanos = 10 ^ Nat.log 10 nanos then none
        else some (.newNanos (UInt32.ofNat (10 ^ Nat.log 10 nanos)))) := by
  have hle : 10 ^ Nat.log 10 nanos ≤ nanos := Nat.pow_log_le_self 10 hnanos
  have hlt : nanos < 10 ^ Nat.log 10 nanos * 10 := by
    rw [← Nat.pow_succ]
    exact Nat.lt_pow_succ_log_self (by decide) nanos
  subst hpower
  induction hd : Nat.log 10 nanos - j generalizing j with
  | zero =>
      obtain rfl : j = Nat.log 10 nanos := by omega
      rw [granularityLoop]
      by_cases hexact : nanos = 10 ^ Nat.log 10 nanos
      · rw [if_neg (by omega), if_pos hexact]
      · rw [if_pos (by omega), if_neg (by omega), if_pos hlt, if_neg hexact]
  | succ d ih =>
      have hnext : 10 ^ j * 10 ≤ 10 ^ Nat.log 10 nanos := by
        rw [← Nat.pow_succ]
        exact Nat.pow_le_pow_right (by decide) (by omega)
      rw [granularityLoop, if_pos (by omega), if_neg (by omega), if_neg (by omega)]
      have hpos' : 0 < 10 ^ (j + 1) := Nat.pow_pos (by decide)
      have hrest := ih (by omega) hpos' (by omega)
      simpa only [Nat.pow_succ] using hrest

theorem granularityLoop_one (value : Duration) (hnanos : value.nanos ≠ 0) :
    granularityLoop value.nanos 1 Nat.one_pos
      = some (if value.nanos = 10 ^ Nat.log 10 value.nanos then none
        else some (.newNanos (UInt32.ofNat (10 ^ Nat.log 10 value.nanos)))) := by
  apply granularityLoop_eq (j := 0) rfl Nat.one_pos (Nat.zero_le _) hnanos
  have hrange := value.inRange
  omega

/-- The search ends without an overflow. -/
theorem granularityLoop_ne_none (value : Duration) :
    granularityLoop value.nanos 1 Nat.one_pos ≠ none := by
  by_cases hzero : value.nanos = 0
  · rw [granularityLoop, if_neg (by omega)]
    intro h
    cases h
  · rw [granularityLoop_one value hzero]
    intro h
    cases h

theorem log_le_nine {nanos : ℕ} (h : nanos ≤ 10 ^ 9) : Nat.log 10 nanos ≤ 9 :=
  (Nat.log_mono_right h).trans (Nat.log_pow (by decide) 9).le

theorem newNanos_pow {k : ℕ} (hk : k ≤ 9) :
    (Duration.newNanos (UInt32.ofNat (10 ^ k))).nanos = 10 ^ k := by
  have hle : 10 ^ k ≤ 10 ^ 9 := Nat.pow_le_pow_right (by decide) hk
  change (UInt32.ofNat (10 ^ k)).toNat = 10 ^ k
  rw [UInt32.toNat_ofNat']
  exact Nat.mod_eq_of_lt (by omega)

/-- The guard before the search refuses what is longer than a second. -/
theorem longer_than_second (value : Duration) :
    (value.asSecs > 1 ∨ (value.asSecs = 1 ∧ value.subsecNanos > 0)) ↔ 10 ^ 9 < value.nanos := by
  unfold Duration.asSecs Duration.subsecNanos
  omega

/-- A granularity is stored; another duration is answered with the greatest granularity that is not
above it, or with a nanosecond. -/
theorem setTimeGranularity_eq (c : KernelConfig) (value : Duration) :
    (IsGranularity value.nanos ∧
        c.setTimeGranularity value = some (.ok c.timeGran, { c with timeGran := value })) ∨
      (¬ IsGranularity value.nanos ∧ ∃ v : Duration,
        c.setTimeGranularity value = some (.error v, c) ∧ IsGranularity v.nanos ∧
          (value.nanos = 0 → v.nanos = 1) ∧ (value.nanos ≠ 0 → v.nanos ≤ value.nanos) ∧
          ∀ g, IsGranularity g → g ≤ value.nanos → g ≤ v.nanos) := by
  unfold setTimeGranularity
  by_cases hzero : value.nanos = 0
  · rw [if_pos hzero, hzero]
    refine .inr ⟨?_, _, rfl, ⟨0, by decide, rfl⟩, fun _ => rfl, fun h => absurd rfl h, ?_⟩
    · rintro ⟨k, -, hk⟩
      exact absurd hk (Nat.pos_of_neZero (10 ^ k)).ne
    · rintro g ⟨k, -, rfl⟩ hle
      exact hle.trans (Nat.zero_le _)
  rw [if_neg hzero]
  by_cases hlong : 10 ^ 9 < value.nanos
  · rw [if_pos ((longer_than_second value).mpr hlong)]
    have hsecond : (Duration.fromSecs 1).nanos = 10 ^ 9 := rfl
    have hgreatest : ∀ g, IsGranularity g → g ≤ 10 ^ 9 := by
      rintro g ⟨k, hk, rfl⟩
      exact Nat.pow_le_pow_right (by decide) hk
    refine .inr ⟨fun hg => ?_, _, rfl, ⟨9, le_rfl, hsecond⟩, fun h => absurd h hzero, fun _ => ?_, ?_⟩
    · have hle := hgreatest _ hg
      omega
    · rw [hsecond]
      exact hlong.le
    · intro g hg _
      rw [hsecond]
      exact hgreatest g hg
  rw [if_neg ((longer_than_second value).not.mpr hlong), granularityLoop_one value hzero]
  have hlog : Nat.log 10 value.nanos ≤ 9 := log_le_nine (by omega)
  have hbelow : ∀ g, IsGranularity g → g ≤ value.nanos → g ≤ 10 ^ Nat.log 10 value.nanos := by
    rintro g ⟨k, -, rfl⟩ hle
    exact Nat.pow_le_pow_right (by decide) (Nat.le_log_of_pow_le (by decide) hle)
  by_cases hexact : value.nanos = 10 ^ Nat.log 10 value.nanos
  · rw [if_pos hexact]
    exact .inl ⟨⟨_, hlog, hexact⟩, rfl⟩
  · rw [if_neg hexact]
    have hv := newNanos_pow hlog
    refine .inr ⟨fun hg => ?_, _, rfl, ⟨_, hlog, hv⟩, fun h => absurd h hzero, fun _ => ?_, ?_⟩
    · have hle := hbelow _ hg le_rfl
      have hge := Nat.pow_log_le_self 10 hzero
      omega
    · rw [hv]
      exact Nat.pow_log_le_self 10 hzero
    · rw [hv]
      exact hbelow

/-! ## The contract of the setters -/

/-- Every value is stored, and the one in effect before returned, or nothing changes and the value that
is returned instead would be stored. -/
def Negotiates {κ : Type} (setter : KernelConfig → κ → Option (Except κ κ × KernelConfig))
    (effective : KernelConfig → κ) (stored : KernelConfig → κ → KernelConfig) (c : KernelConfig) :
    Prop :=
  ∀ value, setter c value = some (.ok (effective c), stored c value) ∨
    ∃ v, setter c value = some (.error v, c) ∧ setter c v = some (.ok (effective c), stored c v)

/-- A setter that suggests only what it takes. -/
theorem negotiates_of_suggestion {κ : Type} {suggestion : κ → Option κ} {effective : KernelConfig → κ}
    {stored : KernelConfig → κ → KernelConfig}
    {setter : KernelConfig → κ → Except κ κ × KernelConfig} {c : KernelConfig}
    (hsetter : ∀ value, setter c value = c.negotiate (suggestion value) (effective c) (stored c value))
    (htakes : ∀ value v, suggestion value = some v → suggestion v = none) :
    Negotiates (fun c value => some (setter c value)) effective stored c := by
  intro value
  dsimp only
  cases hvalue : suggestion value with
  | none =>
      rw [hsetter, hvalue]
      exact .inl rfl
  | some v =>
      rw [hsetter, hvalue]
      refine .inr ⟨v, rfl, ?_⟩
      rw [hsetter, htakes value v hvalue]
      rfl

/-- The threshold in effect: at most the background limit, and three quarters of it if none was set. -/
def effectiveThreshold (c : KernelConfig) : ℕ :=
  min (c.congestionThreshold.elim (c.maxBackground.toNat * 3 / 4) UInt16.toNat) c.maxBackground.toNat

theorem previousThreshold_eq (c : KernelConfig) :
    min (c.congestionThreshold.getD (c.maxBackground.toUInt32 * 3 / 4).toUInt16) c.maxBackground
      = UInt16.ofNat c.effectiveThreshold := by
  have hmin : ∀ a b : UInt16, (min a b).toNat = min a.toNat b.toNat := by
    intro a b
    change (if a ≤ b then a else b).toNat = _
    split_ifs with hle
    · exact (Nat.min_eq_left (UInt16.le_iff_toNat_le.mp hle)).symm
    · exact (Nat.min_eq_right (UInt16.le_iff_toNat_le.not.mp hle |> Nat.le_of_not_ge)).symm
  have hquarters : (c.maxBackground.toUInt32 * 3 / 4).toUInt16.toNat = c.maxBackground.toNat * 3 / 4 := by
    have hbound := c.maxBackground.toNat_lt
    have hproduct : c.maxBackground.toNat * 3 % 2 ^ 32 = c.maxBackground.toNat * 3 :=
      Nat.mod_eq_of_lt (by omega)
    simp only [UInt32.toNat_toUInt16, UInt32.toNat_div, UInt32.toNat_mul, UInt16.toNat_toUInt32,
      UInt32.reduceToNat, hproduct]
    omega
  rw [← UInt16.toNat_inj, UInt16.toNat_ofNat', hmin, effectiveThreshold]
  have hbound := c.maxBackground.toNat_lt
  cases c.congestionThreshold with
  | none =>
      rw [Option.getD_none, Option.elim_none, hquarters]
      omega
  | some threshold =>
      rw [Option.getD_some, Option.elim_some]
      omega

/-- Zero is refused with one, and what is above a limit with the limit. -/
theorem bounded_suggestion {limit : UInt32} (hlimit : 1 ≤ limit.toNat) (value v : UInt32)
    (h : (if value = 0 then some 1 else if value > limit then some limit else none) = some v) :
    (if v = 0 then some 1 else if v > limit then some limit else none) = none := by
  split_ifs at h with hzero habove
  · obtain rfl : 1 = v := Option.some.inj h
    rw [if_neg (by decide), if_neg]
    rw [gt_iff_lt, UInt32.lt_iff_toNat_lt]
    exact Nat.not_lt.mpr hlimit
  · obtain rfl : limit = v := Option.some.inj h
    rw [if_neg, if_neg (UInt32.lt_irrefl limit)]
    rintro rfl
    exact absurd hlimit (by decide)

theorem positive_suggestion (value v : UInt16)
    (h : (if value = 0 then some (1 : UInt16) else none) = some v) :
    (if v = 0 then some (1 : UInt16) else none) = none := by
  split_ifs at h with hzero
  cases h
  rfl

theorem stackDepth_suggestion (value v : UInt32)
    (h : (if value > FILESYSTEM_MAX_STACK_DEPTH then some FILESYSTEM_MAX_STACK_DEPTH else none) = some v) :
    (if v > FILESYSTEM_MAX_STACK_DEPTH then some FILESYSTEM_MAX_STACK_DEPTH else none) = none := by
  split_ifs at h with habove
  obtain rfl : FILESYSTEM_MAX_STACK_DEPTH = v := Option.some.inj h
  exact if_neg (UInt32.lt_irrefl _)

theorem setTimeGranularity_negotiates (c : KernelConfig) :
    Negotiates setTimeGranularity timeGran (fun c value => { c with timeGran := value }) c := by
  intro value
  rcases c.setTimeGranularity_eq value with ⟨-, hstored⟩ | ⟨-, v, hrefused, hv, -⟩
  · exact .inl hstored
  · rcases c.setTimeGranularity_eq v with ⟨-, hstored⟩ | ⟨hnot, -⟩
    · exact .inr ⟨v, hrefused, hstored⟩
    · exact absurd hv hnot

/-- In every reachable configuration each setter keeps the contract. The granularities are the powers
of ten from a nanosecond to a second; another duration is answered with the greatest of them that is
not above it, and zero with a nanosecond; and the search ends for every duration without overflow. -/
theorem kernel_config_negotiates {c : KernelConfig} (hc : c.Reachable) :
    (Negotiates (fun c value => some (c.setMaxStackDepth value)) maxStackDepth
        (fun c value => { c with maxStackDepth := value }) c ∧
      Negotiates (fun c value => some (c.setMaxWrite value)) maxWrite
        (fun c value => { c with maxWrite := value }) c ∧
      Negotiates (fun c value => some (c.setMaxReadahead value)) maxReadahead
        (fun c value => { c with maxReadahead := value }) c ∧
      Negotiates (fun c value => some (c.setMaxBackground value)) maxBackground
        (fun c value => { c with maxBackground := value }) c ∧
      Negotiates (fun c value => some (c.setCongestionThreshold value))
        (fun c => UInt16.ofNat c.effectiveThreshold)
        (fun c value => { c with congestionThreshold := some value }) c ∧
      Negotiates setTimeGranularity timeGran (fun c value => { c with timeGran := value }) c) ∧
    (∀ value, (∃ previous c', c.setTimeGranularity value = some (.ok previous, c')) ↔
      IsGranularity value.nanos) ∧
    (∀ value v c', c.setTimeGranularity value = some (.error v, c') → IsGranularity v.nanos ∧
      (value.nanos = 0 → v.nanos = 1) ∧ (value.nanos ≠ 0 → v.nanos ≤ value.nanos) ∧
      ∀ g, IsGranularity g → g ≤ value.nanos → g ≤ v.nanos) ∧
    ∀ value : Duration, granularityLoop value.nanos 1 Nat.one_pos ≠ none := by
  have hlimit : 1 ≤ c.maxMaxReadahead.toNat := by
    rw [hc.maxMaxReadahead]
    decide
  refine ⟨⟨negotiates_of_suggestion (fun _ => rfl) stackDepth_suggestion,
    negotiates_of_suggestion (fun _ => rfl) (bounded_suggestion (by decide)),
    negotiates_of_suggestion (fun _ => rfl) (bounded_suggestion hlimit),
    negotiates_of_suggestion (fun _ => rfl) positive_suggestion,
    negotiates_of_suggestion (fun _ => by rw [setCongestionThreshold, previousThreshold_eq])
      positive_suggestion, c.setTimeGranularity_negotiates⟩, fun value => ?_, fun value v c' h => ?_,
    granularityLoop_ne_none⟩
  · rcases c.setTimeGranularity_eq value with ⟨hg, hstored⟩ | ⟨hnot, v, hrefused, -⟩
    · exact iff_of_true ⟨_, _, hstored⟩ hg
    · refine iff_of_false ?_ hnot
      rintro ⟨previous, c', hok⟩
      rw [hrefused] at hok
      cases hok
  · rcases c.setTimeGranularity_eq value with ⟨-, hstored⟩ | ⟨-, v', hrefused, hv⟩
    · rw [hstored] at h
      cases h
    · rw [hrefused] at h
      cases h
      exact hv

/-- After the background limit was set. -/
theorem kernel_config_negotiates_background : ∃ previous c',
    (defaultKernelConfig.setMaxBackground 32).2.setTimeGranularity (.ofNanos 1000)
      = some (.ok previous, c') :=
  ((kernel_config_negotiates (.set (.maxBackground 32) .default rfl)).2.1 (.ofNanos 1000)).mpr
    ⟨3, by decide, rfl⟩

end KernelConfig
end Confuse
