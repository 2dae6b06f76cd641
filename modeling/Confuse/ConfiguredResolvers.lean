import Confuse.Adapter
import Confuse.MountOptions

/-!
# The configured resolver

A session makes its resolver with the options of its configuration. Of the options that set the time to
live of negative entries the last one holds, and what does not read as such an option is passed over.
-/

namespace Confuse

open PathResolver

/-! ## Reading an option -/

def Duration.fromMillis (ms : UInt64) : Duration :=
  ⟨ms.toNat * 10 ^ 6, Nat.lt_of_lt_of_le (Nat.mul_lt_mul_of_pos_right ms.toNat_lt (by decide))
    (by decide)⟩

/-- One digit more, unless the number grows too large. -/
def pushDigit (n : UInt64) (c : Char) : Option UInt64 :=
  if c.isDigit ∧ n.toNat * 10 + (c.toNat - '0'.toNat) < 2 ^ 64 then
    some (n * 10 + .ofNat (c.toNat - '0'.toNat))
  else none

/-- `str::parse::<u64>`, which takes a plus sign before the digits. -/
def parseU64 (s : Str) : Option UInt64 :=
  let digits := if s.head? = some '+' then s.tail else s
  if digits = [] then none else digits.foldlM pushDigit 0

/-- The time to live that the value of a custom option sets. -/
def negativeTtlValue (value : Str) : Option Duration :=
  if value = "negative_ttl=0".toList ∨ value = "negative_ttl=off".toList then some (.fromNanos 0)
  else (value.dropPrefix? "negative_ttl_ms=".toList).bind fun ms => (parseU64 ms).map .fromMillis

example : negativeTtlValue "negative_ttl_ms=+250".toList = some (.fromMillis 250) := by decide

def MountOption.negativeTtl? : MountOption → Option Duration
  | .custom value => negativeTtlValue value
  | _ => none

/-! ## The resolver of a session -/

/-- One turn of the loop of `configured_path_resolver`. -/
def applyNegativeTtl (resolver : PathResolver) (option : MountOption) : PathResolver :=
  match option.negativeTtl? with
  | some ttl => resolver.setNegativeTtl ttl
  | none => resolver

def configuredPathResolver (config : Config) : PathResolver :=
  config.mountOptions.foldl applyNegativeTtl default

/-- The last time to live that an option sets. -/
def Config.negativeTtl (config : Config) : Duration :=
  (config.mountOptions.filterMap MountOption.negativeTtl?).getLast?.getD DEFAULT_NEGATIVE_TTL

theorem foldl_applyNegativeTtl (options : List MountOption) (start : Duration) :
    options.foldl applyNegativeTtl ((default : PathResolver).setNegativeTtl start)
      = (default : PathResolver).setNegativeTtl
          ((options.filterMap MountOption.negativeTtl?).getLast?.getD start) := by
  induction options generalizing start with
  | nil => rfl
  | cons option options ih =>
      rw [List.foldl_cons, applyNegativeTtl]
      cases hoption : option.negativeTtl? with
      | none =>
          rw [List.filterMap_cons_none hoption]
          exact ih start
      | some ttl =>
          rw [List.filterMap_cons_some hoption, List.getLast?_cons, Option.getD_some]
          exact ih ttl

/-- The last option that sets a time to live holds. -/
theorem configuredPathResolver_eq (config : Config) :
    configuredPathResolver config = (default : PathResolver).setNegativeTtl config.negativeTtl :=
  foldl_applyNegativeTtl config.mountOptions DEFAULT_NEGATIVE_TTL

namespace World
variable {β φ : Type}

/-- The adapter as a session with this configuration mounts it. -/
def configured (config : Config) (backend : β) (caller : φ) : World β φ :=
  { initial config.negativeTtl backend caller with resolver := configuredPathResolver config }

theorem configured_eq (config : Config) (backend : β) (caller : φ) :
    configured config backend caller = initial config.negativeTtl backend caller := by
  unfold configured
  rw [configuredPathResolver_eq]
  rfl

end World
end Confuse
