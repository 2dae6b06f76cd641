import Confuse.PanickingRuns

/-!
# Sessions

The caller keeps the context of every handle that `create_file` returned and passes it to the later
callbacks of this handle; `close_file` is the last of them. A session is a run of such callbacks. It
also keeps, for the statements about it, the events of the call that opened each handle and the bytes
that `lock_file` granted to each handle. A callback that panics poisons the adapter, whose callbacks
then all fail: a session is `Lasting` up to there.
-/

namespace Confuse

open Interaction

structure Handle where
  fileName : U16CStr
  context : AdapterContext
  /-- What happened in the `create_file` call that returned the handle. -/
  opening : List Event

structure Session (β φ : Type) where
  world : World β φ
  handles : KeyedMap ℕ Handle
  next : ℕ
  granted : ℕ → ℕ → Bool

/-- A callback of a session; the handles are numbered in the order of their opening. -/
inductive SessionStep
  | createFile (fileName : U16CStr) (desiredAccess : AccessMask)
      (fileAttributes createDisposition createOptions : UInt32) (requestIds : RequestIds)
  | closeFile (handle : ℕ) (fileName : U16CStr)
  | lockFile (handle : ℕ) (fileName : U16CStr) (offset length : Int64)
  | unlockFile (handle : ℕ) (fileName : U16CStr) (offset length : Int64)

/-- The byte lies in the range of `length` bytes from `offset`. -/
def inRange (offset length : Int64) (byte : ℕ) : Bool :=
  offset.toInt ≤ byte ∧ byte < offset.toInt + length.toInt

/-- Set a range of bytes of one handle. -/
def setRange (handle : ℕ) (offset length : Int64) (value : Bool) (granted : ℕ → ℕ → Bool) :
    ℕ → ℕ → Bool :=
  fun n byte => if n = handle ∧ inRange offset length byte then value else granted n byte

namespace Session
variable {β φ : Type}

def initial (negativeTtl : Duration) (backend : β) (caller : φ) : Session β φ where
  world := .initial negativeTtl backend caller
  handles := ∅
  next := 0
  granted _ _ := false

variable (pf : Platform) (h : Host β φ) (notices : Notices)

def step (s : Session β φ) : SessionStep → Session β φ
  | .createFile fileName desiredAccess fileAttributes createDisposition createOptions requestIds =>
      let served := (createFile pf fileName desiredAccess fileAttributes createDisposition
        createOptions requestIds).run (machine pf h notices) s.world
      match served.1 with
      | .error _ => { s with world := served.2 }
      | .ok info => { s with
          world := served.2
          handles := s.handles.insert s.next
            ⟨fileName, info.context, served.2.log.drop s.world.log.length⟩
          next := s.next + 1 }
  | .closeFile n fileName =>
      match s.handles.lookup n with
      | none => s
      | some handle => { s with
          world := ((closeFile fileName handle.context).run (machine pf h notices) s.world).2
          handles := s.handles.erase n }
  | .lockFile n fileName offset length =>
      match s.handles.lookup n with
      | none => s
      | some handle =>
          let served := (lockFile pf fileName offset length handle.context).run
            (machine pf h notices) s.world
          { s with
            world := served.2
            granted := if served.1.isOk then setRange n offset length true s.granted
              else s.granted }
  | .unlockFile n fileName offset length =>
      match s.handles.lookup n with
      | none => s
      | some handle =>
          let served := (unlockFile pf fileName offset length handle.context).run
            (machine pf h notices) s.world
          { s with
            world := served.2
            granted := if served.1.isOk then setRange n offset length false s.granted
              else s.granted }

def run (steps : List SessionStep) (s : Session β φ) : Session β φ :=
  steps.foldl (step pf h notices) s

@[simp] theorem run_nil (s : Session β φ) : s.run pf h notices [] = s := rfl

theorem run_concat (s : Session β φ) (steps : List SessionStep) (st : SessionStep) :
    s.run pf h notices (steps ++ [st]) = (s.run pf h notices steps).step pf h notices st := by
  simp [run]

/-- An invariant of sessions whose steps all meet a condition on the session before them. -/
theorem run_induction {pf : Platform} {h : Host β φ} {notices : Notices} {s : Session β φ}
    {C : Session β φ → SessionStep → Prop} {P : Session β φ → Prop} (hs : P s)
    (hstep : ∀ s st, P s → C s st → P (s.step pf h notices st)) {steps : List SessionStep}
    (hok : ∀ before st, before ++ [st] <+: steps → C (s.run pf h notices before) st) :
    P (s.run pf h notices steps) := by
  induction steps using List.reverseRecOn with
  | nil => exact hs
  | append_singleton steps st ih =>
      rw [run_concat]
      refine hstep _ st (ih fun before st' hbefore => ?_) (hok steps st List.prefix_rfl)
      exact hok before st' (hbefore.trans (List.prefix_append _ _))

/-! ## Sessions without a panic -/

/-- Every expiry that the step computes is an instant. -/
def StepLasts (s : Session β φ) : SessionStep → Prop
  | .createFile fileName desiredAccess fileAttributes createDisposition createOptions requestIds =>
      s.world.Lasts pf h notices (createFile pf fileName desiredAccess fileAttributes
        createDisposition createOptions requestIds)
  | .closeFile n fileName => ∀ handle ∈ s.handles.lookup n,
      s.world.Lasts pf h notices (closeFile fileName handle.context)
  | .lockFile n fileName offset length => ∀ handle ∈ s.handles.lookup n,
      s.world.Lasts pf h notices (lockFile pf fileName offset length handle.context)
  | .unlockFile n fileName offset length => ∀ handle ∈ s.handles.lookup n,
      s.world.Lasts pf h notices (unlockFile pf fileName offset length handle.context)

instance StepLasts.decidable (s : Session β φ) :
    (st : SessionStep) → Decidable (s.StepLasts pf h notices st)
  | .createFile fileName desiredAccess fileAttributes createDisposition createOptions requestIds =>
      World.Lasts.decidable pf h notices (createFile pf fileName desiredAccess fileAttributes
        createDisposition createOptions requestIds) s.world
  | .closeFile n fileName => inferInstanceAs (Decidable (∀ handle ∈ s.handles.lookup n,
      s.world.Lasts pf h notices (closeFile fileName handle.context)))
  | .lockFile n fileName offset length => inferInstanceAs (Decidable (∀ handle ∈ s.handles.lookup n,
      s.world.Lasts pf h notices (lockFile pf fileName offset length handle.context)))
  | .unlockFile n fileName offset length => inferInstanceAs (Decidable (∀ handle ∈ s.handles.lookup n,
      s.world.Lasts pf h notices (unlockFile pf fileName offset length handle.context)))

/-- No step of the session panics. -/
def Lasting : List SessionStep → Session β φ → Prop
  | [], _ => True
  | st :: steps, s => s.StepLasts pf h notices st ∧ Lasting steps (s.step pf h notices st)

variable {pf h notices} in
theorem lasting_append {before after : List SessionStep} {s : Session β φ} :
    Lasting pf h notices (before ++ after) s ↔
      Lasting pf h notices before s ∧ Lasting pf h notices after (s.run pf h notices before) := by
  induction before generalizing s with
  | nil => exact (and_iff_right trivial).symm
  | cons st before ih => exact (and_congr_right fun _ => ih).trans and_assoc.symm

variable {pf h notices} in
theorem Lasting.of_prefix {before steps : List SessionStep} {s : Session β φ}
    (hlasting : Lasting pf h notices steps s) (hbefore : before <+: steps) :
    Lasting pf h notices before s := by
  obtain ⟨after, rfl⟩ := hbefore
  exact (lasting_append.mp hlasting).1

/-- A session that starts after mounting. -/
def mounted : Session Unit Unit := .initial (.fromSecs 1) () ()

end Session
end Confuse
