import Confuse.CallbackCalls

/-!
# The calls of a run

A file system that takes no notice of `forget` is, after any callbacks, where the calls in the log
have led it. What holds of the calls that each callback can make holds of all of them.
-/

namespace Confuse

open Interaction

/-- The call that an event shows. -/
def Event.fsCall? : Event → Option FsCall
  | .call c _ => some c
  | _ => none

/-- The calls that an effect makes. -/
def Effect.asks : Effect → List FsCall
  | .fs c => [c]
  | _ => []

/-- Where calls lead a file system. -/
def Host.after {β φ : Type} (h : Host β φ) (calls : List FsCall) (b : β) : β :=
  calls.foldl (fun b c => (h.reply c b).2) b

namespace World
variable {β φ : Type}

/-- The calls that the file system has been asked so far. -/
def asked (w : World β φ) : List FsCall := w.log.filterMap Event.fsCall?

theorem asked_append {w v : World β φ} {l : List Event} (hlog : v.log = w.log ++ l) :
    v.asked = w.asked ++ l.filterMap Event.fsCall? := by
  rw [asked, hlog, List.filterMap_append]
  rfl

variable (pf : Platform) (h : Host β φ) (notices : Notices)

theorem asked_foldl_notify (calls : List NotifierCall) (w : World β φ) :
    (calls.foldl (notify pf h) w).asked = w.asked := by
  induction calls generalizing w with
  | nil => rfl
  | cons call calls ih =>
      have hstep := asked_append (w := w) (v := w.notify pf h call) rfl
      rw [List.foldl_cons, ih, hstep]
      exact List.append_nil _

theorem asked_foldl_forget (req : Request) (forgets : Forgets) (w : World β φ) :
    (forgets.foldl (forget h req) w).asked = w.asked := by
  induction forgets generalizing w with
  | nil => rfl
  | cons f forgets ih =>
      have hstep := asked_append (w := w) (v := w.forget h req f) rfl
      rw [List.foldl_cons, ih, hstep]
      exact List.append_nil _

theorem asked_perform (e : Effect) (w : World β φ) :
    (w.perform pf h e).2.asked = w.asked ++ e.asks := by
  cases e with
  | fs c => exact asked_append (l := [.call c (h.reply c w.backend).1]) rfl
  | table o =>
      exact asked_append (l := [.table (h.clock w.steps) o (o.apply pf.caseFold _ w.resolver).1]) rfl
  | deliver req o =>
      refine (asked_foldl_forget h req _ _).trans ?_
      exact asked_append (l := [.drain (h.clock w.steps) o (o.apply pf.caseFold _ w.resolver).1]) rfl
  | openState o => exact (List.append_nil _).symm
  | fillFindData data =>
      exact asked_append (l := [.fillFindData data (h.fillFindData data w.caller).1]) rfl
  | fillFindStreamData data =>
      exact asked_append (l := [.fillFindStreamData data (h.fillFindStreamData data w.caller).1]) rfl

theorem asked_machine (e : Effect) (w : World β φ) :
    (machine pf h notices e w).2.asked = w.asked ++ e.asks := by
  refine (asked_perform pf h e _).trans ?_
  rw [asked_foldl_notify]

variable {h} in
theorem backend_machine (hforget : ∀ req ino n b, h.forget req ino n b = b) (e : Effect)
    (w : World β φ) : (machine pf h notices e w).2.backend = h.after e.asks w.backend := by
  have hbefore := foldl_notify_backend pf (h := h) (notices w.steps) w
  change (((notices w.steps).foldl (notify pf h) w).perform pf h e).2.backend = _
  generalize (notices w.steps).foldl (notify pf h) w = w' at hbefore ⊢
  rw [← hbefore]
  cases e with
  | deliver req o =>
      have hforgets : ∀ (forgets : Forgets) (w : World β φ),
          (forgets.foldl (forget h req) w).backend = w.backend := by
        intro forgets
        induction forgets with
        | nil => exact fun w => rfl
        | cons f forgets ih => exact fun w => (ih _).trans (hforget req f.1 f.2 w.backend)
      exact hforgets _ _
  | _ => rfl

/-- The file system is where the calls of the log lead from `b`. -/
def Followed (b : β) (w : World β φ) : Prop := w.backend = h.after w.asked b

variable {h} in
theorem Followed.machine (hforget : ∀ req ino n b, h.forget req ino n b = b) {b : β} {w : World β φ}
    (hw : w.Followed h b) (e : Effect) : (machine pf h notices e w).2.Followed h b := by
  rw [Followed, backend_machine pf notices hforget, asked_machine, Host.after, Host.after,
    List.foldl_append, show w.backend = _ from hw]
  rfl

variable {h} in
theorem Followed.serve (hforget : ∀ req ino n b, h.forget req ino n b = b) {b : β} {w : World β φ}
    (hw : w.Followed h b) (callbacks : List Callback) :
    (w.serve pf h notices callbacks).Followed h b := by
  induction callbacks generalizing w with
  | nil => exact hw
  | cons c callbacks ih =>
      apply ih
      exact Prog.run_invariant (I := Followed h b) (fun e w hw => hw.machine pf notices hforget e)
        (c.routine pf) hw

variable {pf} in
/-- What holds of the calls of each callback holds of the calls of a run. -/
theorem serve_asked {P : FsCall → Prop} {callbacks : List Callback}
    (hcalls : ∀ c ∈ callbacks, (c.routine pf).Performs fun e : Effect => ∀ call, e = .fs call → P call)
    {w : World β φ} (hw : ∀ call ∈ w.asked, P call) :
    ∀ call ∈ (w.serve pf h notices callbacks).asked, P call := by
  induction callbacks generalizing w with
  | nil => exact hw
  | cons c callbacks ih =>
      rw [List.forall_mem_cons] at hcalls
      apply ih hcalls.2
      refine hcalls.1.invariant (I := fun w : World β φ => ∀ call ∈ w.asked, P call)
        (fun e w he hw call hcall => ?_) hw
      have hasked := asked_machine pf h notices e w
      rcases List.mem_append.mp (hasked ▸ hcall) with hcall | hcall
      · exact hw call hcall
      · cases e with
        | fs c =>
            obtain rfl := List.mem_singleton.mp hcall
            exact he call rfl
        | _ => cases hcall

end World

/-! ## The calls of a callback -/

namespace Callback
variable {pf : Platform} {c : Callback}

/-- A routine makes calls of its walks and calls that its callback may make. -/
theorem performs_of_mayCall {P : FsCall → Prop} (hwalk : ∀ call, (Effect.fs call).isWalk → P call)
    (hmay : ∀ call, c.mayCall call = true → P call) :
    (c.routine pf).Performs fun e : Effect => ∀ call, e = .fs call → P call := by
  refine (calls pf c).mono ?_
  rintro e (he | he) call rfl
  · exact hwalk call he
  · exact hmay call (he call rfl)

end Callback
end Confuse
