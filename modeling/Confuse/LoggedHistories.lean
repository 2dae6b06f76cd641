import Confuse.AttributeHistory
import Confuse.Callbacks
import Mathlib.Order.Monotone.Defs

/-!
# Histories of logs

A log is a history of the resolver, its latest section first. What is known of histories then holds of
the runs of the adapter.
-/

namespace Confuse

open Interaction PathResolver

/-- The operation on the resolver that an event is. -/
def Event.step? : Event → Option (Instant × HistoryOp)
  | .table now o _ => some (now, .op (.table o))
  | .drain now o _ => some (now, .op (.drain o))
  | .notify now n => some (now, .notify n)
  | _ => none

/-- A history with the operations of a log before it. -/
def History.logged (start : History) (log : List Event) : History :=
  (log.filterMap Event.step?).reverse ++ start

namespace History
variable {cf : CaseFold} {start before : History} {log : List Event} {now recorded : Instant}
  {o : HistoryOp}

@[simp] theorem logged_nil : start.logged [] = start := rfl

theorem logged_append (l l' : List Event) : start.logged (l ++ l') = (start.logged l).logged l' := by
  simp only [logged, List.filterMap_append, List.reverse_append, List.append_assoc]

theorem logged_singleton {e : Event} (h : e.step? = some (now, o)) :
    start.logged [e] = (now, o) :: start := by
  unfold logged
  rw [List.filterMap_cons_some h]
  rfl

theorem logged_singleton_none {e : Event} (h : e.step? = none) : start.logged [e] = start := by
  unfold logged
  rw [List.filterMap_cons_none h]
  rfl

theorem state_logged_singleton (e : Event) :
    state cf (start.logged [e]) = e.replay cf (state cf start) := by
  cases e <;> rfl

/-- A log leads to the same resolver as its history. -/
theorem state_logged (log : List Event) :
    state cf (start.logged log) = replay cf (state cf start) log := by
  induction log generalizing start with
  | nil => rfl
  | cons e log ih =>
      have happend : e :: log = [e] ++ log := rfl
      rw [happend, logged_append, ih, state_logged_singleton]
      rfl

/-- An operation of the history is an event of the log, what was before it being before the event. -/
theorem mem_logged (h : (recorded, o) :: before <:+ start.logged log) :
    (recorded, o) :: before <:+ start ∨ ∃ first event rest, log = first ++ event :: rest ∧
      event.step? = some (recorded, o) ∧ before = start.logged first := by
  induction log using List.reverseRecOn with
  | nil => exact .inl h
  | append_singleton log e ih =>
      have hlater : (recorded, o) :: before <:+ start.logged log →
          (recorded, o) :: before <:+ start ∨ ∃ first event rest, log ++ [e] = first ++ event :: rest ∧
            event.step? = some (recorded, o) ∧ before = start.logged first := by
        refine fun h => (ih h).imp_right ?_
        rintro ⟨first, event, rest, rfl, hstep, hbefore⟩
        exact ⟨first, event, rest ++ [e], List.append_assoc .., hstep, hbefore⟩
      rw [logged_append] at h
      cases hstep : e.step? with
      | none =>
          rw [logged_singleton_none hstep] at h
          exact hlater h
      | some step =>
          rw [logged_singleton hstep] at h
          rcases List.suffix_cons_iff.mp h with heq | h
          · obtain ⟨hfirst, hbefore⟩ := List.cons_eq_cons.mp heq
            exact .inr ⟨log, e, [], rfl, hfirst ▸ hstep, hbefore⟩
          · exact hlater h

theorem Ordered.of_logged (h : (start.logged log).Ordered now) (e : Event) (rest : List Event)
    {before : List Event} (hlog : log = before ++ e :: rest) {step : Instant × HistoryOp}
    (hstep : e.step? = some step) : (start.logged before).Ordered step.1 := by
  subst hlog
  rw [logged_append] at h
  induction rest using List.reverseRecOn generalizing now with
  | nil =>
      rw [logged_singleton hstep] at h
      exact h.2
  | append_singleton rest e' ih =>
      rw [← List.cons_append, logged_append] at h
      cases hstep' : e'.step? with
      | none =>
          rw [logged_singleton_none hstep'] at h
          exact ih h
      | some step' =>
          rw [logged_singleton hstep'] at h
          exact ih h.2

theorem lastTouch_suffix {ω : Type} (touch : Instant → History → Option ω → HistoryOp → Touch ω)
    (h : History) : lastTouch touch h <:+ h := by
  induction h with
  | nil => exact List.suffix_rfl
  | cons step before ih =>
      obtain ⟨now, o⟩ := step
      rw [lastTouch_cons]
      split
      · exact ih.trans (List.suffix_cons _ _)
      · exact List.suffix_rfl

end History

/-! ## The times of a run -/

namespace World
variable {β φ : Type} {pf : Platform} {h : Host β φ} {notices : Notices} {start : History}

/-- The log is in order, up to now. -/
def Timely (start : History) (h : Host β φ) (w : World β φ) : Prop :=
  (start.logged w.log).Ordered (h.clock w.steps)

theorem Timely.event {w w' : World β φ} (hw : w.Timely start h) {e : Event}
    (hlog : w'.log = w.log ++ [e]) (hsteps : w'.steps = w.steps)
    (htime : ∀ step, e.step? = some step → step.1 = h.clock w.steps) : w'.Timely start h := by
  unfold Timely
  rw [hlog, hsteps, History.logged_append]
  cases hstep : e.step? with
  | none =>
      rw [History.logged_singleton_none hstep]
      exact hw
  | some step =>
      rw [History.logged_singleton hstep]
      exact ⟨(htime step hstep).le, htime step hstep ▸ hw⟩

theorem Timely.notify {w : World β φ} (hw : w.Timely start h) (n : NotifierCall) :
    (w.notify pf h n).Timely start h := by
  refine hw.event (e := .notify (h.clock w.steps) n) rfl rfl fun step hstep => ?_
  obtain rfl := Option.some.inj hstep
  rfl

theorem Timely.foldl_notify {w : World β φ} (hw : w.Timely start h) (ns : List NotifierCall) :
    (ns.foldl (World.notify pf h) w).Timely start h := by
  induction ns generalizing w with
  | nil => exact hw
  | cons n ns ih => exact ih (hw.notify n)

theorem Timely.foldl_forget {w : World β φ} (hw : w.Timely start h) (req : Request)
    (forgets : Forgets) : (forgets.foldl (World.forget h req) w).Timely start h := by
  induction forgets generalizing w with
  | nil => exact hw
  | cons f forgets ih =>
      exact ih (hw.event (e := .forget req f.1 f.2) rfl rfl fun step hstep => by cases hstep)

theorem Timely.perform {w : World β φ} (hw : w.Timely start h) (e : Effect) :
    (w.perform pf h e).2.Timely start h := by
  cases e with
  | fs c =>
      exact hw.event (e := .call c (h.reply c w.backend).1) rfl rfl fun step hstep => by cases hstep
  | table o =>
      refine hw.event (e := .table (h.clock w.steps) o _) rfl rfl fun step hstep => ?_
      obtain rfl := Option.some.inj hstep
      rfl
  | deliver req o =>
      refine Timely.foldl_forget ?_ req _
      refine hw.event (e := .drain (h.clock w.steps) o _) rfl rfl fun step hstep => ?_
      obtain rfl := Option.some.inj hstep
      rfl
  | openState o => exact hw
  | fillFindData data =>
      exact hw.event (e := .fillFindData data _) rfl rfl fun step hstep => by cases hstep
  | fillFindStreamData data =>
      exact hw.event (e := .fillFindStreamData data _) rfl rfl fun step hstep => by cases hstep

/-- A clock that never goes back keeps the log in order. -/
theorem Timely.machine (hclock : Monotone h.clock) (e : Effect) {w : World β φ}
    (hw : w.Timely start h) : (Confuse.machine pf h notices e w).2.Timely start h := by
  have hperformed : (((notices w.steps).foldl (World.notify pf h) w).perform pf h e).2.Timely start
      h := (hw.foldl_notify _).perform e
  exact History.Ordered.later hperformed (hclock (Nat.le_succ _))

theorem Timely.serve (hclock : Monotone h.clock) (callbacks : List Callback) {w : World β φ}
    (hw : w.Timely start h) : (w.serve pf h notices callbacks).Timely start h := by
  induction callbacks generalizing w with
  | nil => exact hw
  | cons c callbacks ih =>
      have hserved : ((c.routine pf).run (Confuse.machine pf h notices) w).2.Timely start h :=
        Prog.run_invariant (I := Timely start h) (fun e _ hw => hw.machine hclock e) (c.routine pf) hw
      exact ih hserved

end World
end Confuse
