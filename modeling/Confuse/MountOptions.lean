import Confuse.Types

/-!
# Options of a mount

A session mounts with the options that `to_dokan_mount_options` reads off the list of its configuration,
after `apply_session_threading`. Single-threaded callbacks can be requested in either place: with one
thread in the configuration, or with an option of the list.
-/

namespace Confuse

inductive MountOption
  | fsName (name : Str)
  | subtype (name : Str)
  | custom (value : Str)
  | autoUnmount | defaultPermissions | dev | noDev | suid | noSuid | ro | rw | exec | noExec | atime
  | noAtime | dirSync | sync | async
  deriving DecidableEq

inductive SessionACL
  | all | rootAndOwner | owner
  deriving DecidableEq

structure Config where
  mountOptions : List MountOption
  acl : SessionACL
  nThreads : Option ℕ
  cloneFd : Bool
  deriving DecidableEq

/-- The flags of `dokan::MountFlags` that the options set. -/
structure MountFlags where
  debug : Bool
  altStream : Bool
  writeProtect : Bool
  deriving DecidableEq

/-- The fields of `dokan::MountOptions` that the options set. -/
structure DokanMountOptions where
  singleThread : Bool
  flags : MountFlags
  deriving DecidableEq

/-! ## Reading the options -/

def rejectConflictingMountOptions (options : List MountOption) (left right : MountOption)
    (leftName rightName : Str) : Except IoError Unit :=
  if left ∈ options ∧ right ∈ options then
    .error ⟨.invalidInput, "mount options ".toList ++ leftName ++ " and ".toList ++ rightName ++
      " are mutually exclusive".toList⟩
  else .ok ()

def validateMountOptions (options : List MountOption) : Except IoError Unit := do
  rejectConflictingMountOptions options .ro .rw "ro".toList "rw".toList
  rejectConflictingMountOptions options .dev .noDev "dev".toList "nodev".toList
  rejectConflictingMountOptions options .suid .noSuid "suid".toList "nosuid".toList
  rejectConflictingMountOptions options .exec .noExec "exec".toList "noexec".toList
  rejectConflictingMountOptions options .atime .noAtime "atime".toList "noatime".toList
  rejectConflictingMountOptions options .sync .async "sync".toList "async".toList

def eqIgnoreAsciiCase (a b : Str) : Bool := a.map Char.toLower == b.map Char.toLower

def applyCustomDokanMountOption (out : DokanMountOptions) (value : Str) : DokanMountOptions where
  singleThread := eqIgnoreAsciiCase value "single_thread".toList || out.singleThread
  flags := { out.flags with
    debug := eqIgnoreAsciiCase value "debug".toList || out.flags.debug
    altStream := eqIgnoreAsciiCase value "dokan_named_streams".toList ||
      eqIgnoreAsciiCase value "named_streams".toList || out.flags.altStream }

/-- One turn of the loop of `to_dokan_mount_options`. -/
def applyMountOption (out : DokanMountOptions) : MountOption → DokanMountOptions
  | .ro => { out with flags := { out.flags with writeProtect := true } }
  | .custom value => applyCustomDokanMountOption out value
  | _ => out

/-- `defaults` is `dokan::MountOptions::default()`. -/
def toDokanMountOptions (defaults : DokanMountOptions) (options : List MountOption) :
    Except IoError DokanMountOptions := do
  validateMountOptions options
  pure (options.foldl applyMountOption defaults)

def applySessionThreading (config : Config) (options : DokanMountOptions) : DokanMountOptions :=
  { options with singleThread := config.nThreads == some 1 }

/-- The options with which `Session::run` mounts. -/
def sessionMountOptions (defaults : DokanMountOptions) (config : Config) :
    Except IoError DokanMountOptions := do
  let options ← toDokanMountOptions defaults config.mountOptions
  pure (applySessionThreading config options)

/-! ## Single-threaded mode -/

/-- The list contains the option in some letter case. -/
def HasSingleThreadOption (options : List MountOption) : Prop :=
  ∃ value, .custom value ∈ options ∧ eqIgnoreAsciiCase value "single_thread".toList = true

theorem foldl_applyMountOption_singleThread (options : List MountOption) (out : DokanMountOptions) :
    (options.foldl applyMountOption out).singleThread = true
      ↔ HasSingleThreadOption options ∨ out.singleThread = true := by
  induction options generalizing out with
  | nil => simp [HasSingleThreadOption]
  | cons option options ih =>
      have hcons : HasSingleThreadOption (option :: options) ↔
          (applyMountOption { out with singleThread := false } option).singleThread = true ∨
            HasSingleThreadOption options := by
        unfold HasSingleThreadOption
        cases option <;> simp [applyMountOption, applyCustomDokanMountOption, or_and_right, exists_or]
      have hone : (applyMountOption out option).singleThread = true ↔
          (applyMountOption { out with singleThread := false } option).singleThread = true ∨
            out.singleThread = true := by
        cases option <;> simp [applyMountOption, applyCustomDokanMountOption]
      rw [List.foldl_cons, ih, hone, hcons]
      tauto

/-- The list alone is read right: the flag is set exactly when the option occurs. -/
theorem toDokanMountOptions_singleThread {defaults mapped : DokanMountOptions}
    {options : List MountOption} (h : toDokanMountOptions defaults options = .ok mapped)
    (hdefaults : defaults.singleThread = false) :
    mapped.singleThread = true ↔ HasSingleThreadOption options := by
  unfold toDokanMountOptions at h
  cases hvalid : validateMountOptions options with
  | error err =>
      rw [hvalid] at h
      cases h
  | ok valid =>
      rw [hvalid] at h
      cases h
      rw [foldl_applyMountOption_singleThread, hdefaults]
      simp

theorem sessionMountOptions_singleThread {defaults mounted : DokanMountOptions} {config : Config}
    (h : sessionMountOptions defaults config = .ok mounted) :
    mounted.singleThread = true ↔ config.nThreads = some 1 := by
  unfold sessionMountOptions at h
  cases hmapped : toDokanMountOptions defaults config.mountOptions with
  | error err =>
      rw [hmapped] at h
      cases h
  | ok mapped =>
      rw [hmapped] at h
      cases h
      exact beq_iff_eq

/-- A session is single-threaded exactly when it was requested, unless the list alone requests it. -/
theorem single_thread_honoured_iff {defaults mounted : DokanMountOptions} {config : Config}
    (h : sessionMountOptions defaults config = .ok mounted) :
    (mounted.singleThread = true ↔
        config.nThreads = some 1 ∨ HasSingleThreadOption config.mountOptions) ↔
      (config.nThreads = some 1 ∨ ¬ HasSingleThreadOption config.mountOptions) := by
  rw [sessionMountOptions_singleThread h]
  tauto

def noDokanOptions : DokanMountOptions := ⟨false, false, false, false⟩

def oneThread : Config := ⟨[.custom "debug".toList], .owner, some 1, false⟩

theorem single_thread_honoured_iff_oneThread :
    ∃ mounted, sessionMountOptions noDokanOptions oneThread = .ok mounted ∧
      (mounted.singleThread = true ↔
        oneThread.nThreads = some 1 ∨ HasSingleThreadOption oneThread.mountOptions) :=
  ⟨_, rfl, (single_thread_honoured_iff rfl).mpr (.inl rfl)⟩

/-- The option without a number of threads is lost. -/
theorem single_thread_option_lost :
    ¬ ∀ (defaults mounted : DokanMountOptions) (config : Config),
      sessionMountOptions defaults config = .ok mounted →
        (mounted.singleThread = true ↔
          config.nThreads = some 1 ∨ HasSingleThreadOption config.mountOptions) := by
  intro hall
  have hlost := hall noDokanOptions noDokanOptions
    ⟨[.custom "single_thread".toList], .owner, none, false⟩ rfl
  have hrequested := hlost.mpr (.inr ⟨"single_thread".toList, by simp, by decide⟩)
  cases hrequested

end Confuse
