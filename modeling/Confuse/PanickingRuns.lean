import Confuse.Callbacks
import Confuse.TtlOverflow

/-!
# Runs that may panic

The runs of `machine` know no panic. Here a section that computes an expiry which is not an instant
ends the run and leaves its resolver behind in a poisoned mutex. A run comes to its end exactly when
all of its expiries are instants, and then it is the run of `machine`.
-/

namespace Confuse

open Interaction

variable {β φ : Type}

/-- If the effect is a section that computes an expiry, it is an instant. -/
def Effect.Lasts (h : Host β φ) : Effect → World β φ → Prop
  | .table o, w => o.Lasts (h.clock w.steps) w.resolver.negativeTtl
  | .fs _, _ | .deliver _ _, _ | .openState _, _ | .fillFindData _, _ | .fillFindStreamData _, _ =>
      True

instance Effect.Lasts.decidable (h : Host β φ) : (e : Effect) → (w : World β φ) →
    Decidable (e.Lasts h w)
  | .table o, w => inferInstanceAs (Decidable (o.Lasts (h.clock w.steps) w.resolver.negativeTtl))
  | .fs _, _ | .deliver _ _, _ | .openState _, _ | .fillFindData _, _ | .fillFindStreamData _, _ =>
      inferInstanceAs (Decidable True)

namespace World
variable (pf : Platform) (h : Host β φ)

def tableOrPanic (o : TableOp) (w : World β φ) : Except (World β φ) (o.Result × World β φ) :=
  let now := h.clock w.steps
  match o.applyOrPanic pf.caseFold now w.resolver with
  | .error left => .error { w with resolver := left }
  | .ok answer =>
      .ok (answer.1, { w with resolver := answer.2, log := w.log ++ [.table now o answer.1] })

/-- Only sections that look into the tables or change them compute expiries. -/
def performOrPanic : (e : Effect) → World β φ → Except (World β φ) (e.Res × World β φ)
  | .table o, w => w.tableOrPanic pf h o
  | .fs c, w => .ok (w.perform pf h (.fs c))
  | .deliver req o, w => .ok (w.perform pf h (.deliver req o))
  | .openState o, w => .ok (w.perform pf h (.openState o))
  | .fillFindData data, w => .ok (w.perform pf h (.fillFindData data))
  | .fillFindStreamData data, w => .ok (w.perform pf h (.fillFindStreamData data))

end World

/-- The machine whose sections may panic. -/
def panickingMachine (pf : Platform) (h : Host β φ) (notices : Notices) :
    Prog.StoppingMachine effects (World β φ) :=
  fun e w =>
    match ((notices w.steps).foldl (World.notify pf h) w).performOrPanic pf h e with
    | .error left => .error left
    | .ok answer => .ok (answer.1, { answer.2 with steps := answer.2.steps + 1 })

/-! ## Runs without a panic -/

section Panics
variable (pf : Platform) (h : Host β φ) (notices : Notices)

namespace World

theorem foldl_notify_steps (ns : List NotifierCall) (w : World β φ) :
    (ns.foldl (notify pf h) w).steps = w.steps := by
  induction ns generalizing w with
  | nil => rfl
  | cons n ns ih => exact ih (w.notify pf h n)

theorem foldl_notify_negativeTtl (ns : List NotifierCall) (w : World β φ) :
    (ns.foldl (notify pf h) w).resolver.negativeTtl = w.resolver.negativeTtl := by
  induction ns generalizing w with
  | nil => rfl
  | cons n ns ih =>
      exact (ih (w.notify pf h n)).trans
        (PathResolver.notify_negativeTtl pf.caseFold (h.clock w.steps) n w.resolver)

variable {h}

theorem performOrPanic_lasts {e : Effect} {w : World β φ} (he : e.Lasts h w) :
    w.performOrPanic pf h e = .ok (w.perform pf h e) := by
  cases e with
  | table o =>
      have hsection : o.applyOrPanic pf.caseFold (h.clock w.steps) w.resolver
          = .ok (o.apply pf.caseFold (h.clock w.steps) w.resolver) := TableOp.applyOrPanic_lasts he
      change w.tableOrPanic pf h o = _
      unfold tableOrPanic
      dsimp only
      rw [hsection]
      rfl
  | _ => rfl

theorem performOrPanic_panics {e : Effect} {w : World β φ} (he : ¬ e.Lasts h w) :
    ∃ left, w.performOrPanic pf h e = .error left := by
  cases e with
  | table o =>
      obtain ⟨left, hleft⟩ := TableOp.applyOrPanic_panics pf.caseFold he
      refine ⟨{ w with resolver := left }, ?_⟩
      change w.tableOrPanic pf h o = _
      unfold tableOrPanic
      dsimp only
      rw [hleft]
      rfl
  | _ => exact absurd trivial he

/-- Notifications change neither the clock nor the configuration. -/
theorem lasts_foldl_notify (ns : List NotifierCall) {e : Effect} {w : World β φ} :
    e.Lasts h (ns.foldl (notify pf h) w) ↔ e.Lasts h w := by
  cases e with
  | table o =>
      change o.Lasts (h.clock (ns.foldl (notify pf h) w).steps) _ ↔ o.Lasts _ _
      rw [foldl_notify_steps, foldl_notify_negativeTtl]
  | _ => exact Iff.rfl

end World

/-- The machine panics exactly at an expiry that is not an instant. -/
theorem panickingMachine_stops :
    Prog.StopsUnless (Effect.Lasts h) (panickingMachine pf h notices) (machine pf h notices) where
  goes {e w} he := by
    have hperform := World.performOrPanic_lasts pf
      ((World.lasts_foldl_notify pf (notices w.steps)).mpr he)
    unfold panickingMachine
    rw [hperform]
    rfl
  stops {e w} he := by
    obtain ⟨left, hleft⟩ := World.performOrPanic_panics pf
      (mt (World.lasts_foldl_notify pf (notices w.steps)).mp he)
    refine ⟨left, ?_⟩
    unfold panickingMachine
    rw [hleft]

namespace World

/-- Every expiry that the run of a routine computes is an instant. -/
abbrev Lasts {α : Type} (p : Routine α) (w : World β φ) : Prop :=
  p.RunMeets (machine pf h notices) (Effect.Lasts h) w

instance Lasts.decidable {α : Type} (p : Routine α) (w : World β φ) :
    Decidable (w.Lasts pf h notices p) :=
  @Prog.RunMeets.decidable _ _ _ _ _ (fun e w => Effect.Lasts.decidable h e w) p w

/-- Run a routine up to its end or to a panic. -/
abbrev attempt {α : Type} (p : Routine α) (w : World β φ) : Except (World β φ) (α × World β φ) :=
  p.attempt (panickingMachine pf h notices) w

variable {pf h notices} {α : Type} {p : Routine α} {w : World β φ}

theorem attempt_of_lasts (hw : w.Lasts pf h notices p) :
    w.attempt pf h notices p = .ok (p.run (machine pf h notices) w) :=
  (panickingMachine_stops pf h notices).attempt_of_meets hw

theorem attempt_returns (hw : w.Lasts pf h notices p) {a : α}
    (ha : (p.run (machine pf h notices) w).1 = a) :
    w.attempt pf h notices p = .ok (a, (p.run (machine pf h notices) w).2) :=
  (attempt_of_lasts hw).trans (congrArg Except.ok (Prod.ext ha rfl))

theorem exists_attempt_iff {Q : α → World β φ → Prop} :
    (∃ a w', w.attempt pf h notices p = .ok (a, w') ∧ Q a w') ↔
      w.Lasts pf h notices p ∧
        Q (p.run (machine pf h notices) w).1 (p.run (machine pf h notices) w).2 :=
  (panickingMachine_stops pf h notices).exists_attempt_iff

end World
end Panics

/-- Serve callbacks one after the other, as one routine. -/
def Callback.serveEach (pf : Platform) (callbacks : List Callback) : Routine Unit :=
  Prog.each (Callback.routine pf) callbacks

theorem World.run_serveEach (pf : Platform) (h : Host β φ) (notices : Notices)
    (callbacks : List Callback) (w : World β φ) :
    (Callback.serveEach pf callbacks).run (machine pf h notices) w
      = ((), w.serve pf h notices callbacks) := Prog.run_each ..

theorem World.attempt_serveEach {pf : Platform} {h : Host β φ} {notices : Notices}
    {callbacks : List Callback} {w : World β φ}
    (hw : w.Lasts pf h notices (Callback.serveEach pf callbacks)) :
    w.attempt pf h notices (Callback.serveEach pf callbacks)
      = .ok ((), w.serve pf h notices callbacks) :=
  (attempt_of_lasts hw).trans (congrArg Except.ok (run_serveEach ..))

end Confuse
