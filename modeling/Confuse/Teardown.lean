import Confuse.Transitions
import Mathlib.Data.List.Count
import Mathlib.Logic.Function.Basic

/-!
# Teardown

A session is unmounted by any number of requests, which share `mount_state`, and its filesystem is
destroyed by Dokan's `unmounted` callback and by the drop of the session, which share the lock on the
filesystem and the flag `destroyed`. A step is one operation on a mutex or on the flag, or one call.
-/

namespace Confuse

/-! ## Unmounting -/

/-- Where a call of `unmount_once` is. -/
inductive UnmountOnce
  | lock
  | test
  | unmount
  | store
  | unlock (result : Bool)
  | returned (result : Bool)
  deriving DecidableEq

/-- The call holds the lock on `mount_state`. -/
def UnmountOnce.Inside : UnmountOnce → Prop
  | .lock | .returned _ => False
  | .test | .unmount | .store | .unlock _ => True

/-- `calls` are the calls of `dokan::unmount` with their answers, the last one at the end. -/
structure MountState (ι : Type) where
  requests : ι → UnmountOnce
  holder : Option ι
  mounted : Bool
  calls : List (ι × Bool)

section Unmounting
variable {ι : Type} [DecidableEq ι]

def MountState.move (s : MountState ι) (i : ι) (next : UnmountOnce) : MountState ι :=
  { s with requests := Function.update s.requests i next }

/-- The next step of a request; `answer` is what Dokan says if it is called. -/
def unmountOnce (i : ι) (answer : Bool) (s : MountState ι) : Option (MountState ι) :=
  match s.requests i with
  | .lock => if s.holder = none then some { s.move i .test with holder := some i } else none
  | .test => some (s.move i (if s.mounted then .unmount else .unlock true))
  | .unmount =>
      some { s.move i (if answer then .store else .unlock false) with
        calls := s.calls ++ [(i, answer)] }
  | .store => some { s.move i (.unlock true) with mounted := false }
  | .unlock result => some { s.move i (.returned result) with holder := none }
  | .returned _ => none

def unmounts (ι : Type) [DecidableEq ι] : Transitions (MountState ι) (ι × Bool) where
  step action := unmountOnce action.1 action.2

def MountState.start : MountState ι := ⟨fun _ => .lock, none, true, []⟩

/-- Some call of `dokan::unmount` has succeeded. -/
def MountState.Succeeded (s : MountState ι) : Prop := ∃ call ∈ s.calls, call.2 = true

/-- The lock is held by the only call inside, the flag is cleared after a success, and a success is the
last call. -/
structure MountState.Guarded (s : MountState ι) : Prop where
  inside : ∀ i, (s.requests i).Inside ↔ s.holder = some i
  asking : ∀ i, s.requests i = .unmount → s.mounted = true
  succeeded : s.Succeeded ↔ s.mounted = false ∨ ∃ i, s.requests i = .store
  final : ∀ before call after, s.calls = before ++ call :: after → call.2 = true → after = []

namespace MountState
variable {s t : MountState ι} {i : ι} {answer : Bool}

theorem unmountOnce_cases (h : unmountOnce i answer s = some t) :
    (s.requests i = .lock ∧ s.holder = none ∧ t = { s.move i .test with holder := some i }) ∨
    (s.requests i = .test ∧ t = s.move i (if s.mounted then .unmount else .unlock true)) ∨
    (s.requests i = .unmount ∧ t = { s.move i (if answer then .store else .unlock false) with
      calls := s.calls ++ [(i, answer)] }) ∨
    (s.requests i = .store ∧ t = { s.move i (.unlock true) with mounted := false }) ∨
    ∃ result, s.requests i = .unlock result ∧
      t = { s.move i (.returned result) with holder := none } := by
  unfold unmountOnce at h
  split at h
  · split_ifs at h with hfree
    cases h
    exact .inl ⟨‹_›, hfree, rfl⟩
  · cases h
    exact .inr (.inl ⟨‹_›, rfl⟩)
  · cases h
    exact .inr (.inr (.inl ⟨‹_›, rfl⟩))
  · cases h
    exact .inr (.inr (.inr (.inl ⟨‹_›, rfl⟩)))
  · cases h
    exact .inr (.inr (.inr (.inr ⟨_, ‹_›, rfl⟩)))
  · cases h

omit [DecidableEq ι] in
/-- Only the call that holds the lock is inside. -/
theorem Guarded.others (hs : s.Guarded) (hi : s.holder = none ∨ s.holder = some i) {k : ι}
    (hk : k ≠ i) : ¬ (s.requests k).Inside := by
  rw [hs.inside k]
  rcases hi with hfree | hheld
  · simp [hfree]
  · simp [hheld, hk.symm]

/-- What is left to show after a step of one request while no other is inside. -/
theorem guarded_move {next : UnmountOnce} {holder : Option ι} {mounted : Bool}
    {calls : List (ι × Bool)} (hothers : ∀ k, k ≠ i → ¬ (s.requests k).Inside)
    (hholder : next.Inside ∧ holder = some i ∨ ¬ next.Inside ∧ holder = none)
    (hasking : next = .unmount → mounted = true)
    (hsucceeded : (∃ call ∈ calls, call.2 = true) ↔ mounted = false ∨ next = .store)
    (hfinal : ∀ before call after, calls = before ++ call :: after → call.2 = true → after = []) :
    (MountState.mk (Function.update s.requests i next) holder mounted calls).Guarded where
  inside := by
    intro k
    by_cases hk : k = i
    · subst hk
      rcases hholder with ⟨hin, rfl⟩ | ⟨hout, rfl⟩
      · simpa using hin
      · simpa using hout
    · dsimp only
      rw [Function.update_of_ne hk]
      refine iff_of_false (hothers k hk) ?_
      rcases hholder with ⟨-, rfl⟩ | ⟨-, rfl⟩
      · simp [Ne.symm hk]
      · simp
  asking := by
    intro k hk
    by_cases hki : k = i
    · subst hki
      exact hasking (by simpa using hk)
    · dsimp only at hk
      rw [Function.update_of_ne hki] at hk
      exact absurd (by rw [hk]; trivial) (hothers k hki)
  succeeded := by
    refine hsucceeded.trans (or_congr_right ?_)
    constructor
    · rintro rfl
      exact ⟨i, Function.update_self ..⟩
    · rintro ⟨k, hk⟩
      by_cases hki : k = i
      · subst hki
        simpa using hk
      · dsimp only at hk
        rw [Function.update_of_ne hki] at hk
        exact absurd (by rw [hk]; trivial) (hothers k hki)
  final := hfinal

omit [DecidableEq ι] in
/-- The call that holds the lock decides whether the flag is about to be cleared. -/
theorem Guarded.succeeded_iff (hs : s.Guarded) (hi : s.holder = none ∨ s.holder = some i) :
    s.Succeeded ↔ s.mounted = false ∨ s.requests i = .store := by
  refine hs.succeeded.trans (or_congr_right ⟨?_, fun hstore => ⟨i, hstore⟩⟩)
  rintro ⟨k, hk⟩
  by_cases hki : k = i
  · rwa [← hki]
  · exact absurd (by rw [hk]; trivial) (hs.others hi hki)

omit [DecidableEq ι] in
theorem succeeded_append (hnone : ¬ s.Succeeded) :
    (∃ call ∈ s.calls ++ [(i, answer)], call.2 = true) ↔ answer = true := by
  constructor
  · rintro ⟨call, hcall, hyes⟩
    rcases List.mem_append.mp hcall with hold | hnew
    · exact absurd ⟨call, hold, hyes⟩ hnone
    · rwa [List.mem_singleton.mp hnew] at hyes
  · intro hyes
    exact ⟨(i, answer), List.mem_append_right _ (List.mem_singleton_self _), hyes⟩

omit [DecidableEq ι] in
/-- Before the first success any call may be the last one. -/
theorem final_append (hnone : ¬ s.Succeeded) (before : List (ι × Bool)) (call : ι × Bool)
    (after : List (ι × Bool)) (hcalls : s.calls ++ [(i, answer)] = before ++ call :: after)
    (hyes : call.2 = true) : after = [] := by
  rcases List.eq_nil_or_concat after with rfl | ⟨rest, last, rfl⟩
  · rfl
  · have hold : s.calls = before ++ call :: rest := by
      rw [List.concat_eq_append, ← List.cons_append, ← List.append_assoc] at hcalls
      exact (List.append_inj' hcalls rfl).1
    exact absurd ⟨call, by simp [hold], hyes⟩ hnone

theorem guarded_step (h : unmountOnce i answer s = some t) (hs : s.Guarded) : t.Guarded := by
  obtain ⟨hi, hfree, rfl⟩ | ⟨hi, rfl⟩ | ⟨hi, rfl⟩ | ⟨hi, rfl⟩ | ⟨result, hi, rfl⟩ :=
    unmountOnce_cases h
  · have hlock : s.holder = none ∨ s.holder = some i := .inl hfree
    refine guarded_move (fun k => hs.others hlock) (.inl ⟨trivial, rfl⟩) (by simp) ?_ hs.final
    refine (hs.succeeded_iff hlock).trans ?_
    simp [hi, move]
  · have hheld : s.holder = some i := (hs.inside i).mp (by rw [hi]; trivial)
    have hsucceeded := hs.succeeded_iff (.inr hheld)
    cases hmounted : s.mounted
    · refine guarded_move (fun k => hs.others (.inr hheld)) (.inl ⟨trivial, hheld⟩) (by simp) ?_ hs.final
      refine hsucceeded.trans ?_
      simp [hmounted]
    · refine guarded_move (fun k => hs.others (.inr hheld)) (.inl ⟨trivial, hheld⟩) (by simp [hmounted])
        ?_ hs.final
      refine hsucceeded.trans ?_
      simp [hi]
  · have hheld : s.holder = some i := (hs.inside i).mp (by rw [hi]; trivial)
    have hmounted := hs.asking i hi
    have hnone : ¬ s.Succeeded := by
      rw [hs.succeeded_iff (.inr hheld), hi, hmounted]
      simp
    refine guarded_move (fun k => hs.others (.inr hheld)) ?_ ?_ ?_ (final_append hnone)
    · cases answer
      · exact .inl ⟨trivial, hheld⟩
      · exact .inl ⟨trivial, hheld⟩
    · intro hask
      exact hmounted
    · rw [succeeded_append hnone]
      cases answer
      · simp [move, hmounted]
      · simp
  · have hheld : s.holder = some i := (hs.inside i).mp (by rw [hi]; trivial)
    refine guarded_move (fun k => hs.others (.inr hheld)) (.inl ⟨trivial, hheld⟩) (by simp) ?_ hs.final
    exact iff_of_true (hs.succeeded.mpr (.inr ⟨i, hi⟩)) (.inl rfl)
  · have hheld : s.holder = some i := (hs.inside i).mp (by rw [hi]; trivial)
    refine guarded_move (fun k => hs.others (.inr hheld)) (.inr ⟨id, rfl⟩) (by simp) ?_ hs.final
    refine (hs.succeeded_iff (.inr hheld)).trans ?_
    simp [hi, move]

omit [DecidableEq ι] in
theorem countP_of_final (hfinal : ∀ before call after, s.calls = before ++ call :: after →
    call.2 = true → after = []) : s.calls.countP (fun call => call.2) ≤ 1 := by
  by_cases hsome : s.Succeeded
  · obtain ⟨call, hcall, hyes⟩ := hsome
    obtain ⟨before, after, hcalls⟩ := List.append_of_mem hcall
    obtain rfl := hfinal before call after hcalls hyes
    have hbefore : before.countP (fun call => call.2) = 0 := by
      rw [List.countP_eq_zero]
      intro earlier hearlier hyes'
      obtain ⟨first, rest, rfl⟩ := List.append_of_mem hearlier
      have hmore := hfinal first earlier (rest ++ [call]) (by simp [hcalls]) hyes'
      simp at hmore
    have htotal : s.calls.countP (fun call => call.2) = 0 + 1 := by
      rw [hcalls, List.countP_append, hbefore, List.countP_singleton, if_pos hyes]
    omega
  · have hzero : s.calls.countP (fun call => call.2) = 0 := by
      rw [List.countP_eq_zero]
      intro call hcall hyes
      exact hsome ⟨call, hcall, hyes⟩
    omega

/-! A request can always go on to the call. -/

/-- The request inside can leave the lock without a success. -/
def CanLeave (s : MountState ι) (j : ι) : Prop :=
  ∃ actions u, (unmounts ι).run actions s = some u ∧ u.holder = none ∧ u.mounted = true ∧
    ∀ k, k ≠ j → u.requests k = s.requests k

variable {j : ι}

theorem canLeave_unlock {result : Bool} (hj : s.requests j = .unlock result)
    (hmounted : s.mounted = true) : s.CanLeave j := by
  refine ⟨[(j, false)], { s.move j (.returned result) with holder := none }, ?_, rfl, hmounted,
    fun k hk => Function.update_of_ne hk _ _⟩
  simp [Transitions.run, unmounts, unmountOnce, hj]

theorem canLeave_of_step {answer : Bool} (hstep : unmountOnce j answer s = some t)
    (hothers : ∀ k, k ≠ j → t.requests k = s.requests k) (ht : t.CanLeave j) : s.CanLeave j := by
  obtain ⟨actions, u, hrun, hfree, hmounted, hsame⟩ := ht
  refine ⟨(j, answer) :: actions, u, Transitions.run_cons.mpr ⟨t, hstep, hrun⟩, hfree, hmounted, ?_⟩
  intro k hk
  rw [hsame k hk, hothers k hk]

theorem canLeave_unmount (hj : s.requests j = .unmount) (hmounted : s.mounted = true) :
    s.CanLeave j := by
  have hstep : unmountOnce j false s
      = some { s.move j (.unlock false) with calls := s.calls ++ [(j, false)] } := by
    simp [unmountOnce, hj]
  refine canLeave_of_step hstep (fun k hk => Function.update_of_ne hk _ _) ?_
  exact canLeave_unlock (Function.update_self ..) hmounted

theorem canLeave_test (hj : s.requests j = .test) (hmounted : s.mounted = true) : s.CanLeave j := by
  have hstep : unmountOnce j false s = some (s.move j .unmount) := by
    simp [unmountOnce, hj, hmounted]
  refine canLeave_of_step hstep (fun k hk => Function.update_of_ne hk _ _) ?_
  exact canLeave_unmount (Function.update_self ..) hmounted

/-- Before the first success the request inside can leave. -/
theorem Guarded.canLeave (hs : s.Guarded) (hnone : ¬ s.Succeeded) (hheld : s.holder = some j) :
    s.CanLeave j := by
  have hinside := (hs.inside j).mpr hheld
  rw [hs.succeeded_iff (.inr hheld), not_or, Bool.not_eq_false] at hnone
  obtain ⟨hmounted, hstore⟩ := hnone
  cases hj : s.requests j with
  | lock => exact absurd hinside (by rw [hj]; exact id)
  | test => exact canLeave_test hj hmounted
  | unmount => exact canLeave_unmount hj hmounted
  | store => exact absurd hj hstore
  | unlock result => exact canLeave_unlock hj hmounted
  | returned result => exact absurd hinside (by rw [hj]; exact id)

/-- A request that finds the lock free and the flag set calls `dokan::unmount`. -/
theorem run_calls (hi : s.requests i = .lock) (hfree : s.holder = none) (hmounted : s.mounted = true)
    (answer : Bool) : ∃ u, (unmounts ι).run [(i, answer), (i, answer), (i, answer)] s = some u ∧
      (i, answer) ∈ u.calls := by
  simp [Transitions.run, unmounts, unmountOnce, move, hi, hfree, hmounted]

theorem Guarded.again (hs : s.Guarded) (hnone : ¬ s.Succeeded) (hi : s.requests i = .lock)
    (answer : Bool) : ∃ actions u, (unmounts ι).run actions s = some u ∧ (i, answer) ∈ u.calls := by
  cases hholder : s.holder with
  | none =>
      have hmounted : s.mounted = true := by
        by_contra hclear
        exact hnone (hs.succeeded.mpr (.inl (Bool.not_eq_true _ ▸ hclear)))
      obtain ⟨u, hrun, hcall⟩ := run_calls hi hholder hmounted answer
      exact ⟨_, u, hrun, hcall⟩
  | some j =>
      obtain ⟨actions, t, hrun, hfree, hmounted, hsame⟩ := hs.canLeave hnone hholder
      have hij : i ≠ j := by
        rintro rfl
        have hinside := (hs.inside i).mpr hholder
        rw [hi] at hinside
        exact hinside
      obtain ⟨u, hrest, hcall⟩ := run_calls ((hsame i hij).trans hi) hfree hmounted answer
      exact ⟨_, u, Transitions.run_append hrun hrest, hcall⟩

end MountState

end Unmounting

/-! ## Destroying -/

/-- Where the `unmounted` callback is. -/
inductive Unmounted
  | lock
  | destroy
  | store
  | unlock
  | returned
  deriving DecidableEq

/-- Where the drop of the session is. -/
inductive SessionDrop
  | swap
  | lock
  | destroy
  | unlock
  | returned
  deriving DecidableEq

inductive Destroyer
  | unmounted
  | drop
  deriving DecidableEq

/-- `destroys` counts the calls of `Filesystem::destroy`. -/
structure DestroyState where
  callback : Unmounted
  drop : SessionDrop
  holder : Option Destroyer
  destroyed : Bool
  destroys : ℕ

def unmounted (s : DestroyState) : Option DestroyState :=
  match s.callback with
  | .lock =>
      if s.holder = none then some { s with callback := .destroy, holder := some .unmounted } else none
  | .destroy => some { s with callback := .store, destroys := s.destroys + 1 }
  | .store => some { s with callback := .unlock, destroyed := true }
  | .unlock => some { s with callback := .returned, holder := none }
  | .returned => none

def dropSession (s : DestroyState) : Option DestroyState :=
  match s.drop with
  | .swap => some { s with drop := if s.destroyed then .returned else .lock, destroyed := true }
  | .lock => if s.holder = none then some { s with drop := .destroy, holder := some .drop } else none
  | .destroy => some { s with drop := .unlock, destroys := s.destroys + 1 }
  | .unlock => some { s with drop := .returned, holder := none }
  | .returned => none

def destroyers : Transitions DestroyState Destroyer where
  step
    | .unmounted => unmounted
    | .drop => dropSession

namespace DestroyState

def start : DestroyState := ⟨.lock, .swap, none, false, 0⟩

/-- The callback has the lock and has not set the flag. -/
def InCallback (s : DestroyState) : Prop := s.callback = .destroy ∨ s.callback = .store

/-- The callback takes the lock only while the flag is not set, and the session is not dropped while
the callback is between the lock and the flag. -/
def Orderly : Destroyer → DestroyState → Prop
  | .unmounted, s => s.callback = .lock → s.destroyed = false
  | .drop, s => s.drop = .swap → s.destroyed = false → ¬ s.InCallback

/-- The calls of `destroy`, those that are bound to come included. -/
def owed (s : DestroyState) : ℕ :=
  s.destroys + (if s.callback = .destroy then 1 else 0)
    + (if s.drop = .lock ∨ s.drop = .destroy then 1 else 0)

/-- A call of `destroy` is past or bound to come. -/
def Owing (s : DestroyState) : Prop := s.destroyed = true ∨ s.InCallback

structure Accounted (s : DestroyState) : Prop where
  once : s.owed ≤ 1
  owing : 0 < s.owed ↔ s.Owing

/-- The step makes one more call bound to come. -/
def TakesOn : Destroyer → DestroyState → Prop
  | .unmounted, s => s.callback = .lock
  | .drop, s => s.drop = .swap ∧ s.destroyed = false

variable {s t : DestroyState}

theorem unmounted_cases (h : unmounted s = some t) :
    (s.callback = .lock ∧ t = { s with callback := .destroy, holder := some .unmounted }) ∨
    (s.callback = .destroy ∧ t = { s with callback := .store, destroys := s.destroys + 1 }) ∨
    (s.callback = .store ∧ t = { s with callback := .unlock, destroyed := true }) ∨
    (s.callback = .unlock ∧ t = { s with callback := .returned, holder := none }) := by
  unfold unmounted at h
  split at h
  · split_ifs at h
    cases h
    exact .inl ⟨‹_›, rfl⟩
  · cases h
    exact .inr (.inl ⟨‹_›, rfl⟩)
  · cases h
    exact .inr (.inr (.inl ⟨‹_›, rfl⟩))
  · cases h
    exact .inr (.inr (.inr ⟨‹_›, rfl⟩))
  · cases h

theorem dropSession_cases (h : dropSession s = some t) :
    (s.drop = .swap ∧ t = { s with
      drop := if s.destroyed then .returned else .lock, destroyed := true }) ∨
    (s.drop = .lock ∧ t = { s with drop := .destroy, holder := some .drop }) ∨
    (s.drop = .destroy ∧ t = { s with drop := .unlock, destroys := s.destroys + 1 }) ∨
    (s.drop = .unlock ∧ t = { s with drop := .returned, holder := none }) := by
  unfold dropSession at h
  split at h
  · cases h
    exact .inl ⟨‹_›, rfl⟩
  · split_ifs at h
    cases h
    exact .inr (.inl ⟨‹_›, rfl⟩)
  · cases h
    exact .inr (.inr (.inl ⟨‹_›, rfl⟩))
  · cases h
    exact .inr (.inr (.inr ⟨‹_›, rfl⟩))
  · cases h

theorem orderly_iff {a : Destroyer} : Orderly a s ↔ (TakesOn a s → ¬ s.Owing) := by
  cases a with
  | unmounted =>
      refine forall_congr' fun hlock => ?_
      simp only [Owing, InCallback, hlock]
      simp
  | drop =>
      simp only [Orderly, TakesOn, Owing, and_imp]
      refine forall_congr' fun _ => forall_congr' fun hclear => ?_
      simp [hclear]

theorem owed_step {a : Destroyer} (h : destroyers.step a s = some t) :
    (TakesOn a s → t.owed = s.owed + 1) ∧ (¬ TakesOn a s → t.owed = s.owed) := by
  cases a with
  | unmounted =>
      obtain ⟨hs, rfl⟩ | ⟨hs, rfl⟩ | ⟨hs, rfl⟩ | ⟨hs, rfl⟩ := unmounted_cases h
      all_goals
        simp only [TakesOn, owed, hs]
        simp
        try omega
  | drop =>
      obtain ⟨hs, rfl⟩ | ⟨hs, rfl⟩ | ⟨hs, rfl⟩ | ⟨hs, rfl⟩ := dropSession_cases h
      · simp only [TakesOn, owed, hs]
        by_cases hset : s.destroyed = true
        · simp [hset]
        · simp [hset]
      all_goals
        simp only [TakesOn, owed, hs]
        simp
        try omega

theorem owing_step {a : Destroyer} (h : destroyers.step a s = some t) :
    t.Owing ↔ s.Owing ∨ TakesOn a s := by
  cases a with
  | unmounted =>
      obtain ⟨hs, rfl⟩ | ⟨hs, rfl⟩ | ⟨hs, rfl⟩ | ⟨hs, rfl⟩ := unmounted_cases h
      all_goals simp [Owing, InCallback, TakesOn, hs]
  | drop =>
      obtain ⟨hs, rfl⟩ | ⟨hs, rfl⟩ | ⟨hs, rfl⟩ | ⟨hs, rfl⟩ := dropSession_cases h
      · by_cases hset : s.destroyed = true
        · simp [Owing, TakesOn, hs, hset]
        · simp [Owing, TakesOn, hs, hset]
      all_goals simp [Owing, InCallback, TakesOn, hs]

theorem accounted_step : destroyers.Preserves Orderly Accounted := by
  intro a s t hstep horderly hs
  have howing := owing_step hstep
  by_cases htakes : TakesOn a s
  · have hnone : ¬ 0 < s.owed := mt hs.owing.mp (orderly_iff.mp horderly htakes)
    have howed := (owed_step hstep).1 htakes
    refine ⟨by omega, iff_of_true (by omega) (howing.mpr (.inr htakes))⟩
  · have howed := (owed_step hstep).2 htakes
    refine ⟨howed ▸ hs.once, ?_⟩
    rw [howed, howing, hs.owing, or_iff_left htakes]

/-- Two calls stay two calls. -/
theorem owed_le {a : Destroyer} (h : destroyers.step a s = some t) : s.owed ≤ t.owed := by
  by_cases htakes : TakesOn a s
  · have howed := (owed_step h).1 htakes
    omega
  · have howed := (owed_step h).2 htakes
    omega

theorem owed_of_disorder {a : Destroyer} (h : destroyers.step a s = some t) (ha : ¬ Orderly a s)
    (hs : s.Accounted) : 1 < t.owed := by
  obtain ⟨htakes, howing⟩ : TakesOn a s ∧ s.Owing := by
    simpa [orderly_iff] using ha
  have howed := (owed_step h).1 htakes
  have hsome := hs.owing.mpr howing
  omega

theorem accounted_start : start.Accounted := ⟨by decide, by simp [owed, start, Owing, InCallback]⟩

end DestroyState

/-! ## Both -/

open DestroyState MountState

/-- A session with its requests, the callback and the drop. -/
def teardown (ι : Type) [DecidableEq ι] :
    Transitions (MountState ι × DestroyState) (ι × Bool ⊕ Destroyer) :=
  (unmounts ι).beside destroyers

def mountedSession (ι : Type) : MountState ι × DestroyState := (.start, .start)

/-- The steps of the requests are always in order. -/
def OrderlyTeardown (ι : Type) : ι × Bool ⊕ Destroyer → MountState ι × DestroyState → Prop :=
  Sum.elim (fun _ _ => True) fun a s => Orderly a s.2

/-- `dokan::unmount` has succeeded at most once and has not been called since; before that any request
can still come to call it; `destroy` has been called at most once. -/
structure TornDownOnce {ι : Type} [DecidableEq ι] (s : MountState ι × DestroyState) : Prop where
  once : s.1.calls.countP (fun call => call.2) ≤ 1
  final : ∀ before call after, s.1.calls = before ++ call :: after → call.2 = true → after = []
  again : ¬ s.1.Succeeded → ∀ i, s.1.requests i = .lock → ∀ answer,
    ∃ actions t, (teardown ι).run actions s = some t ∧ (i, answer) ∈ t.1.calls
  destroys : s.2.destroys ≤ 1

theorem guarded_start (ι : Type) : (MountState.start : MountState ι).Guarded where
  inside := by simp [MountState.start, UnmountOnce.Inside]
  asking := by simp [MountState.start]
  succeeded := by simp [MountState.start, Succeeded]
  final := by simp [MountState.start]

section Both
variable {ι : Type} [DecidableEq ι] {s t : MountState ι × DestroyState}
  {actions : List (ι × Bool ⊕ Destroyer)}

theorem guarded_preserved : (unmounts ι).Preserves (fun _ _ => True) MountState.Guarded :=
  fun _ _ _ hstep _ hs => guarded_step hstep hs

theorem accounted_preserved : (teardown ι).Preserves (OrderlyTeardown ι)
    fun s => s.1.Guarded ∧ s.2.Accounted := guarded_preserved.beside accounted_step

theorem tornDownOnce_of_accounted (hguarded : t.1.Guarded) (haccounted : t.2.Accounted) :
    TornDownOnce t where
  once := countP_of_final hguarded.final
  final := hguarded.final
  again := by
    intro hnone i hi answer
    obtain ⟨actions, u, hrun, hcall⟩ := hguarded.again hnone hi answer
    exact ⟨actions.map .inl, (u, t.2), Transitions.run_inl t.2 hrun, hcall⟩
  destroys := by
    have howed := haccounted.once
    unfold owed at howed
    omega

/-- The runs in which no second call of `destroy` is bound to come are those in order. -/
theorem obeys_iff_owed (hrun : (teardown ι).run actions (mountedSession ι) = some t) :
    (teardown ι).Obeys (OrderlyTeardown ι) actions (mountedSession ι) ↔ ¬ 1 < t.2.owed := by
  have hlasting : (teardown ι).Preserves (fun _ _ => True) fun s => 1 < s.2.owed := by
    intro action s t hstep _ hs
    cases action with
    | inl a =>
        obtain ⟨u, -, rfl⟩ := Option.map_eq_some_iff.mp hstep
        exact hs
    | inr b =>
        obtain ⟨u, hu, rfl⟩ := Option.map_eq_some_iff.mp hstep
        exact Nat.lt_of_lt_of_le hs (owed_le hu)
  refine Transitions.obeys_iff accounted_preserved hlasting ?_ ?_ hrun
    ⟨guarded_start ι, accounted_start⟩
  · intro action s t hstep hdisorder hs
    cases action with
    | inl a => exact absurd trivial hdisorder
    | inr b =>
        obtain ⟨u, hu, rfl⟩ := Option.map_eq_some_iff.mp hstep
        exact owed_of_disorder hu hdisorder hs.2
  · intro s hs
    exact Nat.not_lt.mpr hs.2.once

end Both

/-- A session whose steps are in order is torn down once; when callback and drop have returned, it has
been torn down once only if the steps were in order. -/
theorem torn_down_once_iff (ι : Type) [DecidableEq ι] (actions : List (ι × Bool ⊕ Destroyer))
    (t : MountState ι × DestroyState) (hrun : (teardown ι).run actions (mountedSession ι) = some t) :
    ((teardown ι).Obeys (OrderlyTeardown ι) actions (mountedSession ι) → TornDownOnce t) ∧
    (t.2.callback = .returned → t.2.drop = .returned → TornDownOnce t →
      (teardown ι).Obeys (OrderlyTeardown ι) actions (mountedSession ι)) := by
  constructor
  · intro hobeys
    obtain ⟨hguarded, haccounted⟩ :=
      accounted_preserved.run hrun hobeys ⟨guarded_start ι, accounted_start⟩
    exact tornDownOnce_of_accounted hguarded haccounted
  · intro hcallback hdrop honce
    rw [obeys_iff_owed hrun]
    have howed : t.2.owed = t.2.destroys := by simp [owed, hcallback, hdrop]
    have hdestroys := honce.destroys
    omega

/-- A request whose first call fails, a second one that succeeds, then the callback and the drop. -/
def orderlySession : List (Bool × Bool ⊕ Destroyer) :=
  List.replicate 4 (.inl (false, false)) ++ List.replicate 5 (.inl (true, true)) ++
    List.replicate 4 (.inr .unmounted) ++ [.inr .drop]

/-- The session is dropped first, then the callback comes. -/
def droppedFirst : List (Unit × Bool ⊕ Destroyer) :=
  List.replicate 4 (.inr .drop) ++ List.replicate 4 (.inr .unmounted)

theorem torn_down_once_orderly :
    ∃ t, (teardown Bool).run orderlySession (mountedSession Bool) = some t ∧ TornDownOnce t :=
  ⟨_, rfl, (torn_down_once_iff Bool orderlySession _ rfl).1 ((obeys_iff_owed rfl).mpr (by decide))⟩

/-- Both call `destroy`. -/
theorem dropped_first_destroys_twice :
    ¬ ∀ (ι : Type) (_ : DecidableEq ι) (actions : List (ι × Bool ⊕ Destroyer))
      (t : MountState ι × DestroyState),
      (teardown ι).run actions (mountedSession ι) = some t → TornDownOnce t := by
  intro hall
  have hdestroys := (hall Unit inferInstance droppedFirst _ rfl).destroys
  exact absurd hdestroys (by decide)

end Confuse
