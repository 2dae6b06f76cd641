import Confuse.AskedCalls

/-!
# File systems that answer alike

A run depends on its file system only through the calls that it makes. A file system that answers
these calls as another one does serves the same run.
-/

namespace Confuse

open Interaction

namespace Host
variable {β φ : Type}

/-- The same surroundings with another file system. -/
def answering (h : Host β φ) (reply : (c : FsCall) → β → c.Reply × β) : Host β φ :=
  { h with reply := reply }

/-- The calls, made one after the other from `b`, get these answers. -/
def AnswersAlike (h : Host β φ) (reply : (c : FsCall) → β → c.Reply × β) : List FsCall → β → Prop
  | [], _ => True
  | c :: calls, b => reply c b = h.reply c b ∧ AnswersAlike h reply calls (h.reply c b).2

theorem answersAlike_append {h : Host β φ} {reply : (c : FsCall) → β → c.Reply × β}
    {calls calls' : List FsCall} {b : β} : h.AnswersAlike reply (calls ++ calls') b
      ↔ h.AnswersAlike reply calls b ∧ h.AnswersAlike reply calls' (h.after calls b) := by
  induction calls generalizing b with
  | nil => exact (iff_of_eq (true_and _)).symm
  | cons c calls ih =>
      rw [List.cons_append, AnswersAlike, AnswersAlike, ih, and_assoc]
      rfl

end Host

namespace World
variable {β φ : Type} {pf : Platform} {h : Host β φ} {notices : Notices}
  {reply : (c : FsCall) → β → c.Reply × β}

/-- From `w` to `v` the calls are made. -/
structure Asks (h : Host β φ) (w v : World β φ) (calls : List FsCall) : Prop where
  asked : v.asked = w.asked ++ calls
  backend : v.backend = h.after calls w.backend

namespace Asks
variable {w v u : World β φ} {calls calls' : List FsCall}

theorem refl (w : World β φ) : Asks h w w [] := ⟨(List.append_nil _).symm, rfl⟩

theorem trans (hv : Asks h w v calls) (hu : Asks h v u calls') : Asks h w u (calls ++ calls') where
  asked := by rw [hu.asked, hv.asked, List.append_assoc]
  backend := by
    rw [hu.backend, hv.backend]
    exact (List.foldl_append ..).symm

/-- The calls can be read off the logs. -/
theorem unique (hv : Asks h w v calls) (hv' : Asks h w v calls') : calls = calls' :=
  List.append_cancel_left (hv.asked.symm.trans hv'.asked)

variable (pf notices) (hforget : ∀ req ino n b, h.forget req ino n b = b)
include hforget

theorem machine (e : Effect) (w : World β φ) :
    Asks h w (Confuse.machine pf h notices e w).2 e.asks :=
  ⟨asked_machine pf h notices e w, backend_machine pf notices hforget e w⟩

theorem run {α : Type} (p : Routine α) (w : World β φ) :
    ∃ calls, Asks h w (p.run (Confuse.machine pf h notices) w).2 calls := by
  induction p generalizing w with
  | pure a => exact ⟨[], refl w⟩
  | op e next ih =>
      obtain ⟨calls, hcalls⟩ := ih (Confuse.machine pf h notices e w).1
        (Confuse.machine pf h notices e w).2
      exact ⟨_, (machine pf notices hforget e w).trans hcalls⟩

variable {pf notices} in
/-- What holds of the calls of a routine holds of the calls of its run. -/
theorem of_performs {P : FsCall → Prop} {α : Type} {p : Routine α}
    (hp : p.Performs fun e : Effect => ∀ call, e = .fs call → P call) {w : World β φ}
    (hcalls : Asks h w (p.run (Confuse.machine pf h notices) w).2 calls) : ∀ call ∈ calls, P call := by
  induction p generalizing w calls with
  | pure a =>
      obtain rfl := (refl w).unique hcalls
      exact fun call hcall => by cases hcall
  | op e next ih =>
      obtain ⟨rest, hrest⟩ := run pf notices hforget
        (next (Confuse.machine pf h notices e w).1) (Confuse.machine pf h notices e w).2
      obtain rfl := ((machine pf notices hforget e w).trans hrest).unique hcalls
      intro call hcall
      rcases List.mem_append.mp hcall with hcall | hcall
      · refine hp.1 call ?_
        change Effect at e
        cases e with
        | fs c => rw [List.mem_singleton.mp hcall]
        | _ => cases hcall
      · exact ih _ (hp.2 _) hrest call hcall

theorem serve (callbacks : List Callback) (w : World β φ) :
    ∃ calls, Asks h w (w.serve pf h notices callbacks) calls := by
  induction callbacks generalizing w with
  | nil => exact ⟨[], refl w⟩
  | cons c callbacks ih =>
      obtain ⟨first, hfirst⟩ := run pf notices hforget (c.routine pf) w
      obtain ⟨rest, hrest⟩ := ih ((c.routine pf).run (Confuse.machine pf h notices) w).2
      exact ⟨_, hfirst.trans hrest⟩

end Asks

variable (pf notices) in
theorem machine_answering {w : World β φ} (e : Effect)
    (halike : h.AnswersAlike reply e.asks w.backend) :
    machine pf (h.answering reply) notices e w = machine pf h notices e w := by
  cases e with
  | fs c =>
      have hbefore := foldl_notify_backend pf (h := h) (notices w.steps) w
      have hnotified : (notices w.steps).foldl (notify pf (h.answering reply)) w
          = (notices w.steps).foldl (notify pf h) w := rfl
      unfold machine
      rw [hnotified]
      dsimp only [perform, call]
      rw [hbefore, show (h.answering reply).reply c w.backend = h.reply c w.backend from halike.1]
  | _ => rfl

section Runs
variable (hforget : ∀ req ino n b, h.forget req ino n b = b) {w : World β φ} {calls : List FsCall}
include hforget

theorem run_answering {α : Type} {p : Routine α}
    (hcalls : Asks h w (p.run (machine pf h notices) w).2 calls)
    (halike : h.AnswersAlike reply calls w.backend) :
    p.run (machine pf (h.answering reply) notices) w = p.run (machine pf h notices) w := by
  induction p generalizing w calls with
  | pure a => rfl
  | op e next ih =>
      have hfirst : Asks h w (machine pf h notices e w).2 (Effect.asks e) := .machine pf notices hforget e w
      obtain ⟨rest, hrest⟩ := Asks.run pf notices hforget
        (next (machine pf h notices e w).1) (machine pf h notices e w).2
      obtain rfl := (hfirst.trans hrest).unique hcalls
      have halikes := Host.answersAlike_append.mp halike
      have hsame := machine_answering pf notices e halikes.1
      have hnext := ih (machine pf h notices e w).1 hrest (hfirst.backend ▸ halikes.2)
      exact (congrArg (fun r => (next r.1).run (machine pf (h.answering reply) notices) r.2) hsame).trans
        hnext

theorem serve_answering {callbacks : List Callback}
    (hcalls : Asks h w (w.serve pf h notices callbacks) calls)
    (halike : h.AnswersAlike reply calls w.backend) :
    w.serve pf (h.answering reply) notices callbacks = w.serve pf h notices callbacks := by
  induction callbacks generalizing w calls with
  | nil => rfl
  | cons c callbacks ih =>
      obtain ⟨first, hfirst⟩ := Asks.run pf notices hforget (c.routine pf) w
      obtain ⟨rest, hrest⟩ := Asks.serve pf notices hforget callbacks
        ((c.routine pf).run (machine pf h notices) w).2
      obtain rfl := (hfirst.trans hrest).unique hcalls
      have halikes := Host.answersAlike_append.mp halike
      rw [serve_cons, run_answering hforget hfirst halikes.1]
      exact ih hrest (hfirst.backend ▸ halikes.2)

end Runs
end World
end Confuse
