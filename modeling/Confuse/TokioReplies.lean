import Confuse.CallbackLedger
import Confuse.TokioAdapter

/-!
# Timely replies

When every reply cell is read after its task has sent the reply, an adapter over `TokioAdapter` does
what the adapter does over a file system that gives the tasks' answers before its calls return, and
every reference that the answers grant is recorded. A cell that is read too early holds no reply.
-/

namespace Confuse

open Interaction PathResolver
open Event (granted recorded)

/-! ## What the tasks send -/

namespace TokioAdapter
variable {S : Signature} (inner : AsyncFilesystem S) (unique : RequestId)

theorem start_kind (c : FsCall) : (start inner unique c).kind = c := by cases c <;> rfl

theorem addEntries_delivers {α : Type} {f : α → Prog (S.writing ReplyDirectory) Unit}
    (hf : ∀ a reply, reply.status = none → (f a).Delivers (fun reply => reply.status ≠ none) reply)
    (p : Prog (addingEntries S) α) {reply : ReplyDirectory} (hreply : reply.status = none) :
    (addEntries p >>= f).Delivers (fun reply => reply.status ≠ none) reply := by
  induction p generalizing reply with
  | pure a => exact hf a reply hreply
  | op o next ih =>
      rcases o with o | entry
      · exact ⟨fun hsome => hsome hreply, fun a => ih a hreply⟩
      · exact ⟨fun hsome => hsome hreply, ih false hreply⟩

/-- A task sends its reply with its last operation. -/
theorem start_delivers (c : FsCall) : (start inner unique c).Delivers FsCall.Answered := by
  cases c with
  | lookup req parent name =>
      refine Prog.Delivers.await (fun hsome => hsome rfl) _ fun response => ?_
      cases response <;> exact .write (fun hsome => hsome rfl) (Option.some_ne_none _)
  | getattr req ino fh =>
      refine Prog.Delivers.await (fun hsome => hsome rfl) _ fun response => ?_
      cases response <;> exact .write (fun hsome => hsome rfl) (Option.some_ne_none _)
  | read req ino fh offset size flags lockOwner =>
      refine Prog.Delivers.await (fun hsome => hsome rfl) _ fun response => ?_
      cases response <;> exact .write (fun hsome => hsome rfl) (Option.some_ne_none _)
  | readdir req ino fh offset =>
      refine addEntries_delivers (fun status reply hreply => ?_) _ rfl
      cases status <;> exact .write (fun hsome => hsome hreply) (Option.some_ne_none _)
  | _ => exact Option.some_ne_none _

end TokioAdapter

namespace TokioWorld
variable {S : Signature} {σ φ α : Type} (rt : TokioRuntime S σ φ)

/-- In every run a cell holds a reply exactly when its task has returned. -/
theorem run_delivers (p : TokioRoutine α) {w : TokioWorld S σ φ}
    (hw : ∀ t ∈ w.tasks, t.Delivers FsCall.Answered) :
    ∀ t ∈ (p.run (tokioMachine rt) w).2.tasks, t.Delivers FsCall.Answered := by
  refine p.run_invariant (I := fun w : TokioWorld S σ φ => ∀ t ∈ w.tasks,
    t.Delivers FsCall.Answered) (fun e w hw => ?_) hw
  have hmoved : ∀ t ∈ (w.advance rt).tasks, t.Delivers FsCall.Answered :=
    Task.advance_all (fun t s => Task.Delivers.step) _ hw
  cases e with
  | call unique c =>
      intro t ht
      rcases List.mem_append.mp ht with ht | ht
      · exact hmoved t ht
      · rw [List.mem_singleton.mp ht]
        exact TokioAdapter.start_delivers rt.inner unique c
  | readReply task c => exact hmoved
  | own e h => exact hmoved

end TokioWorld

/-! ## The adapter's own effects -/

abbrev Answers := List ((c : FsCall) × c.Reply)

/-- A file system that gives the listed answers. -/
def scripted (c : FsCall) : Answers → c.Reply × Answers
  | [] => (c.unanswered, [])
  | ⟨c', reply⟩ :: later => if h : c' = c then (h ▸ reply, later) else (c.unanswered, later)

theorem scripted_cons (c : FsCall) (reply : c.Reply) (later : Answers) :
    scripted c (⟨c, reply⟩ :: later) = (reply, later) := dif_pos rfl

namespace World
variable {β φ : Type} (pf : Platform) (caller : Caller φ) (notices : Notices)
  (reply : (c : FsCall) → β → c.Reply × β)

/-- What a world is without the file system and its calls. -/
def own (w : World β φ) : World Unit φ where
  resolver := w.resolver
  openState := w.openState
  backend := ()
  caller := w.caller
  steps := w.steps
  log := w.log.filter fun e => !e.isCall

theorem own_foldl_notify (calls : List NotifierCall) (w : World β φ) :
    (calls.foldl (notify pf (caller.host reply)) w).own
      = calls.foldl (notify pf caller.silent) w.own := by
  induction calls generalizing w with
  | nil => rfl
  | cons n calls ih =>
      have hstep : (w.notify pf (caller.host reply) n).own = w.own.notify pf caller.silent n := by
        simp [own, notify, Event.isCall, Caller.host]
      rw [List.foldl_cons, List.foldl_cons, ih, hstep]

theorem own_foldl_forget (req : Request) (forgets : Forgets) (w : World β φ) :
    (forgets.foldl (forget (caller.host reply) req) w).own
      = forgets.foldl (forget caller.silent req) w.own := by
  induction forgets generalizing w with
  | nil => rfl
  | cons f forgets ih =>
      have hstep : (w.forget (caller.host reply) req f).own = w.own.forget caller.silent req f := by
        simp [own, forget, Event.isCall]
      rw [List.foldl_cons, List.foldl_cons, ih, hstep]

theorem backend_foldl_forget (req : Request) (forgets : Forgets) (w : World β φ) :
    (forgets.foldl (forget (caller.host reply) req) w).backend = w.backend := by
  induction forgets generalizing w with
  | nil => rfl
  | cons f forgets ih => exact ih (w.forget (caller.host reply) req f)

/-- `s'` has come out of `s` by steps that the file system did not see. -/
structure Unseen (s s' : World β φ) : Prop where
  backend : s'.backend = s.backend
  granted : ∀ i, along granted s'.log i = along granted s.log i

theorem Unseen.trans {s s' s'' : World β φ} (h : s.Unseen s') (h' : s'.Unseen s'') :
    s.Unseen s'' := ⟨h'.backend.trans h.backend, fun i => (h'.granted i).trans (h.granted i)⟩

variable {pf} in
theorem unseen_of_leads {s s' : World β φ} {evs : List Event} (hbackend : s'.backend = s.backend)
    (hl : s.Leads pf evs s') (hevs : ∀ e ∈ evs, e.isCall = false) : s.Unseen s' where
  backend := hbackend
  granted i := by
    have hzero : along granted evs i = 0 :=
      along_eq_zero granted fun e he => granted_of_silent (hevs e he) i
    rw [hl.log, along_append, hzero, Nat.add_zero]

theorem unseen_foldl_notify (calls : List NotifierCall) (s : World β φ) :
    s.Unseen (calls.foldl (notify pf (caller.host reply)) s) := by
  obtain ⟨notes, hnotes, hleads, -⟩ := foldl_notify_leads pf (caller.host reply) calls s
  refine unseen_of_leads (foldl_notify_backend pf calls s) hleads fun e he => ?_
  have hnote := hnotes e he
  cases e <;> first | rfl | cases hnote

/-- What the adapter does on its own depends on its own state alone. -/
theorem perform_own {e : Effect} (h : e.isOwn) (s : World β φ) :
    (s.perform pf (caller.host reply) e).1 = (s.own.perform pf caller.silent e).1 ∧
      (s.perform pf (caller.host reply) e).2.own = (s.own.perform pf caller.silent e).2 := by
  cases e with
  | fs c => cases h
  | table o => exact ⟨rfl, by simp [perform, table, own, Event.isCall, Caller.host]⟩
  | deliver req o =>
      refine ⟨rfl, ?_⟩
      have hdrain := own_foldl_forget caller reply req
        (o.apply pf.caseFold (caller.clock s.steps) s.resolver).1
      exact (hdrain _).trans (by simp [perform, deliver, own, Event.isCall, Caller.host])
  | openState o => exact ⟨rfl, rfl⟩
  | fillFindData data => exact ⟨rfl, by simp [perform, own, Event.isCall, Caller.host]⟩
  | fillFindStreamData data => exact ⟨rfl, by simp [perform, own, Event.isCall, Caller.host]⟩

theorem perform_unseen {e : Effect} (h : e.isOwn) (s : World β φ) :
    s.Unseen (s.perform pf (caller.host reply) e).2 := by
  obtain ⟨evs, hevs, hleads⟩ := perform_leads pf (caller.host reply) e s
  cases e with
  | fs c => cases h
  | table o =>
      obtain ⟨now, rfl⟩ := hevs
      exact unseen_of_leads rfl hleads (by simp [Event.isCall])
  | deliver req o =>
      obtain ⟨now, forgets, rfl⟩ := hevs
      refine unseen_of_leads (backend_foldl_forget caller reply req _ _) hleads fun e he => ?_
      rcases List.mem_cons.mp he with rfl | he
      · rfl
      · obtain ⟨f, -, rfl⟩ := List.mem_map.mp he
        rfl
  | openState o =>
      obtain rfl : evs = [] := hevs
      exact unseen_of_leads rfl hleads (by simp)
  | fillFindData data =>
      obtain rfl : evs = [_] := hevs
      exact unseen_of_leads rfl hleads (by simp [Event.isCall])
  | fillFindStreamData data =>
      obtain rfl : evs = [_] := hevs
      exact unseen_of_leads rfl hleads (by simp [Event.isCall])

theorem machine_own {e : Effect} (h : e.isOwn) (s : World β φ) :
    (machine pf (caller.host reply) notices e s).1
        = (machine pf caller.silent notices e s.own).1 ∧
      (machine pf (caller.host reply) notices e s).2.own
        = (machine pf caller.silent notices e s.own).2 ∧
      s.Unseen (machine pf (caller.host reply) notices e s).2 := by
  have hnoticed := unseen_foldl_notify pf caller reply (notices s.steps) s
  have hown := perform_own pf caller reply h
    ((notices s.steps).foldl (notify pf (caller.host reply)) s)
  have hunseen := perform_unseen pf caller reply h
    ((notices s.steps).foldl (notify pf (caller.host reply)) s)
  rw [own_foldl_notify] at hown
  refine ⟨hown.1, ?_, ?_⟩
  · exact congrArg (fun w : World Unit φ => { w with steps := w.steps + 1 }) hown.2
  · exact hnoticed.trans ⟨hunseen.backend, hunseen.granted⟩

end World

/-! ## Handlers whose replies are timely -/

namespace TokioWorld
variable {S : Signature} {σ φ α : Type}

/-- Every task has returned. -/
def Settled (w : TokioWorld S σ φ) : Prop := ∀ t ∈ w.tasks, t.finished

/-- The references that the cells of the tasks grant. -/
def grants (tasks : List (Task S FsCall.Reply)) (i : INodeNo) : ℕ :=
  (tasks.map fun t => (t.kind.granted t.cell).count i).sum

theorem grants_append (ts ts' : List (Task S FsCall.Reply)) (i : INodeNo) :
    grants (ts ++ ts') i = grants ts i + grants ts' i := by
  simp [grants]

theorem advance_settled {rt : TokioRuntime S σ φ} {w : TokioWorld S σ φ} (hw : w.Settled) :
    w.advance rt = { w with turns := w.turns + 1 } := by
  simp only [advance, Task.advance_finished hw]

theorem advance_pending (rt : TokioRuntime S σ φ) {w : TokioWorld S σ φ}
    {ts : List (Task S FsCall.Reply)} {t : Task S FsCall.Reply} (hts : ∀ t ∈ ts, t.finished)
    (hw : w.tasks = ts ++ [t]) : ∃ t', (w.advance rt).tasks = ts ++ [t'] ∧ t'.kind = t.kind := by
  obtain ⟨t', s', hmoved, hkind⟩ := Task.advance_concat (M := rt.backend) hts t w.backend
    (rt.schedule w.turns)
  refine ⟨t', ?_, hkind⟩
  simp only [advance, hw, hmoved]

variable {rt : TokioRuntime S σ φ} {w : TokioWorld S σ φ}

/-- The world after a call, in which all other tasks have returned. -/
def called (rt : TokioRuntime S σ φ) (unique : RequestId) (c : FsCall) (w : TokioWorld S σ φ) :
    TokioWorld S σ φ := (call rt unique c { w with turns := w.turns + 1 }).2

theorem tokioMachine_call (hw : w.Settled) (unique : RequestId) (c : FsCall) :
    tokioMachine rt (.call unique c) w = (w.tasks.length, w.called rt unique c) := by
  change (w.advance rt).call rt unique c = _
  rw [advance_settled hw]
  rfl

theorem run_call (hw : w.Settled) {unique : RequestId} {c : FsCall} (k : ℕ → TokioRoutine α) :
    (TokioRoutine.call unique c >>= k).run (tokioMachine rt) w
      = (k w.tasks.length).run (tokioMachine rt) (w.called rt unique c) := by
  change (k (tokioMachine rt (.call unique c) w).1).run _ (tokioMachine rt (.call unique c) w).2 = _
  rw [tokioMachine_call hw]

theorem runMeets_call (hw : w.Settled) {unique : RequestId} {c : FsCall}
    {k : ℕ → TokioRoutine α} :
    (TokioRoutine.call unique c >>= k).RunMeets (tokioMachine rt) (TokioEffect.Timely rt) w ↔
      (k w.tasks.length).RunMeets (tokioMachine rt) (TokioEffect.Timely rt)
        (w.called rt unique c) := by
  change True ∧ (k (tokioMachine rt (.call unique c) w).1).RunMeets _ _
    (tokioMachine rt (.call unique c) w).2 ↔ _
  rw [tokioMachine_call hw, true_and]

/-- A timely reader of the pending task's cell gets what the task has sent. -/
theorem read_sent {ts : List (Task S FsCall.Reply)} (hts : ∀ t ∈ ts, t.finished)
    {t : Task S FsCall.Reply} (hw : w.tasks = ts ++ [t]) {c : FsCall} (hkind : t.kind = c)
    (htimely : TokioEffect.Timely rt (.readReply ts.length c) w) :
    ∃ reply : c.Reply, (w.advance rt).tasks = ts ++ [⟨c, reply, .pure ()⟩] ∧
      tokioMachine rt (.readReply ts.length c) w = (reply, w.advance rt) := by
  obtain ⟨u, hu, hukind⟩ := advance_pending rt hts hw
  have hfinished : u.finished := by
    refine htimely u ?_
    rw [hu]
    simp
  obtain rfl : u.kind = c := hukind.trans hkind
  rw [Task.eq_of_finished hfinished] at hu
  refine ⟨u.cell, hu, ?_⟩
  have hkept : ts ++ [⟨u.kind, u.cell, .pure ()⟩] <+: (w.advance rt).tasks :=
    ⟨[], (List.append_nil _).trans hu.symm⟩
  exact congrArg (·, w.advance rt) (Task.cellOf_of_prefix hkept)

end TokioWorld

/-- The world over the scripted file system has come as far as the one over `TokioAdapter`, and its
file system will give the answers `later`. -/
structure World.Mirrors {S : Signature} {σ φ : Type} (s : World Answers φ) (w : TokioWorld S σ φ)
    (later : Answers) : Prop where
  own : s.own = w.adapter
  backend : s.backend = later
  granted : ∀ i, along granted s.log i = TokioWorld.grants w.tasks i

/-- A scripted call hands out the first answer. -/
theorem World.scripted_call {S : Signature} {σ φ : Type} {rt : TokioRuntime S σ φ} {c : FsCall}
    (unique : RequestId) {reply : c.Reply} {later : Answers} {s : World Answers φ}
    {w : TokioWorld S σ φ} (hs : s.Mirrors w (⟨c, reply⟩ :: later)) :
    (machine rt.pf (rt.caller.host scripted) rt.notices (.fs c) s).1 = reply ∧
      (machine rt.pf (rt.caller.host scripted) rt.notices (.fs c) s).2.Mirrors
        { w.called rt unique c with tasks := w.tasks ++ [⟨c, reply, .pure ()⟩] } later := by
  have hnoticed := unseen_foldl_notify rt.pf rt.caller scripted (rt.notices s.steps) s
  have hown := own_foldl_notify rt.pf rt.caller scripted (rt.notices s.steps) s
  set s' := (rt.notices s.steps).foldl (notify rt.pf (rt.caller.host scripted)) s with hs'
  have hanswer : scripted c s'.backend = (reply, later) := by
    rw [hnoticed.backend, hs.backend, scripted_cons]
  refine ⟨congrArg Prod.fst hanswer, ?_, congrArg Prod.snd hanswer, fun i => ?_⟩
  · rw [hs.own, show s.steps = w.adapter.steps from congrArg World.steps hs.own] at hown
    have hsteps := congrArg (fun w : World Unit φ => { w with steps := w.steps + 1 }) hown
    refine Eq.trans ?_ hsteps
    simp [own, machine, perform, World.call, Event.isCall, ← hs']
  · have hlog : ∀ i, along granted (s'.log ++ [.call c (scripted c s'.backend).1]) i
        = along granted s'.log i + (c.granted reply).count i := by
      intro i
      rw [hanswer]
      simp [Event.granted]
    refine (hlog i).trans ?_
    rw [hnoticed.granted, hs.granted, TokioWorld.grants_append]
    simp [TokioWorld.grants]

theorem overTokio_own {α : Type} (unique : RequestId) {e : Effect} (h : e.isOwn)
    (next : e.Res → Routine α) : Routine.overTokio unique (.op (S := effects) e next)
      = .op (S := tokioEffects) (.own e h) fun r => Routine.overTokio unique (next r) := by
  cases e <;> first | rfl | cases h

section Simulation
variable {S : Signature} {σ φ α γ : Type} (rt : TokioRuntime S σ φ)

/-- The machine that answers calls from a list. -/
abbrev TokioRuntime.scriptedMachine : Prog.Machine effects (World Answers φ) :=
  machine rt.pf (rt.caller.host scripted) rt.notices

/-- From a world in which all tasks have returned, the first of them those in `kept`, a timely run
of `q` leaves tasks behind with whose answers `p` does the same. -/
def Simulates (kept : List (Task S FsCall.Reply)) (p : Routine α) (q : TokioRoutine α) : Prop :=
  ∀ w : TokioWorld S σ φ, w.Settled → kept <+: w.tasks →
    q.RunMeets (tokioMachine rt) (TokioEffect.Timely rt) w →
    ∃ spawned, (q.run (tokioMachine rt) w).2.tasks = w.tasks ++ spawned ∧
      (∀ t ∈ spawned, t.finished) ∧
      ∀ (s : World Answers φ) later, s.Mirrors w (spawned.map Task.answer ++ later) →
        (p.run rt.scriptedMachine s).1 = (q.run (tokioMachine rt) w).1 ∧
        (p.run rt.scriptedMachine s).2.Mirrors (q.run (tokioMachine rt) w).2 later

namespace Simulates
variable {rt} {kept : List (Task S FsCall.Reply)}

theorem pure (a : α) : Simulates rt kept (Pure.pure a) (Pure.pure a) :=
  fun w _ _ _ => ⟨[], (List.append_nil _).symm, by simp, fun _ _ hs => ⟨rfl, hs⟩⟩

theorem bind {p : Routine α} {q : TokioRoutine α} {f : α → Routine γ} {g : α → TokioRoutine γ}
    (hp : Simulates rt kept p q) (hf : ∀ a, Simulates rt kept (f a) (g a)) :
    Simulates rt kept (p >>= f) (q >>= g) := by
  intro w hw hkept hmeets
  obtain ⟨hmeets, hmeets'⟩ := Prog.runMeets_bind.mp hmeets
  obtain ⟨spawned, htasks, hfinished, hp⟩ := hp w hw hkept hmeets
  have hw' : (q.run (tokioMachine rt) w).2.Settled := by
    intro t ht
    rw [htasks] at ht
    exact (List.mem_append.mp ht).elim (hw t) (hfinished t)
  have hkept' : kept <+: (q.run (tokioMachine rt) w).2.tasks := by
    rw [htasks]
    exact hkept.trans (List.prefix_append _ _)
  obtain ⟨spawned', htasks', hfinished', hf⟩ := hf _ _ hw' hkept' hmeets'
  refine ⟨spawned ++ spawned', ?_, ?_, fun s later hs => ?_⟩
  · rw [Prog.run_bind, htasks', htasks, List.append_assoc]
  · exact fun t ht => (List.mem_append.mp ht).elim (hfinished t) (hfinished' t)
  · rw [List.map_append, List.append_assoc] at hs
    obtain ⟨hresult, hs'⟩ := hp s _ hs
    have hrest := hf _ later hs'
    rw [Prog.run_bind, Prog.run_bind, hresult]
    exact hrest

theorem own {e : Effect} (h : e.isOwn) :
    Simulates rt kept (.perform (S := effects) e) (.perform (S := tokioEffects) (.own e h)) := by
  intro w hw _ _
  refine ⟨[], ?_, by simp, fun s later hs => ?_⟩
  · change ((w.advance rt).perform rt (.own e h)).2.tasks = _
    rw [TokioWorld.advance_settled hw, List.append_nil]
    rfl
  · obtain ⟨hresult, hown, hunseen⟩ := World.machine_own rt.pf rt.caller rt.notices scripted h s
    rw [hs.own] at hresult hown
    change _ = ((w.advance rt).perform rt (.own e h)).1 ∧
      World.Mirrors _ ((w.advance rt).perform rt (.own e h)).2 later
    rw [TokioWorld.advance_settled hw]
    exact ⟨hresult, hown, hunseen.backend.trans hs.backend,
      fun i => (hunseen.granted i).trans (hs.granted i)⟩

/-- Reading a cell once more. -/
theorem readReply {c : FsCall} (reply : c.Reply) :
    Simulates rt (kept ++ [⟨c, reply, .pure ()⟩]) (Pure.pure reply)
      (TokioRoutine.readReply kept.length c) := by
  intro w hw hkept _
  have hrun : (TokioRoutine.readReply kept.length c).run (tokioMachine rt) w
      = (reply, { w with turns := w.turns + 1 }) := by
    change (w.advance rt).perform rt (.readReply kept.length c) = _
    rw [TokioWorld.advance_settled hw]
    exact congrArg (·, _) (Task.cellOf_of_prefix hkept)
  rw [hrun]
  exact ⟨[], (List.append_nil _).symm, by simp, fun s later hs =>
    ⟨rfl, hs.own, hs.backend, hs.granted⟩⟩

variable (rt) in
/-- While one task is pending, the adapter's own effects go on as over any file system. -/
theorem run_pending (unique : RequestId) {p : Routine α} (hp : p.Performs fun e : Effect => e.isOwn)
    {ts : List (Task S FsCall.Reply)} (hts : ∀ t ∈ ts, t.finished) {t : Task S FsCall.Reply}
    {w : TokioWorld S σ φ} (hw : w.tasks = ts ++ [t]) :
    ∃ t', ((Routine.overTokio unique p).run (tokioMachine rt) w).2.tasks = ts ++ [t'] ∧
      t'.kind = t.kind ∧ ∀ s : World Answers φ, s.own = w.adapter →
        (p.run rt.scriptedMachine s).1
            = ((Routine.overTokio unique p).run (tokioMachine rt) w).1 ∧
          (p.run rt.scriptedMachine s).2.own
            = ((Routine.overTokio unique p).run (tokioMachine rt) w).2.adapter ∧
          s.Unseen (p.run rt.scriptedMachine s).2 := by
  induction p generalizing t w with
  | pure a => exact ⟨t, hw, rfl, fun s hs => ⟨rfl, hs, ⟨rfl, fun _ => rfl⟩⟩⟩
  | op e next ih =>
      obtain ⟨u, hu, hkind⟩ := TokioWorld.advance_pending rt hts hw
      have hmachine : tokioMachine rt (.own e hp.1) w = ((machine rt.pf rt.caller.silent rt.notices e
          w.adapter).1, { w.advance rt with
            adapter := (machine rt.pf rt.caller.silent rt.notices e w.adapter).2 }) := rfl
      obtain ⟨t', ht', hkind', hrest⟩ := ih _ (hp.2 (tokioMachine rt (.own e hp.1) w).1)
        (w := (tokioMachine rt (.own e hp.1) w).2) hu
      rw [overTokio_own unique hp.1 next]
      refine ⟨t', ht', hkind'.trans hkind, fun s hs => ?_⟩
      obtain ⟨hresult, hown, hunseen⟩ := World.machine_own rt.pf rt.caller rt.notices scripted hp.1 s
      rw [hs] at hresult hown
      obtain ⟨hresult', hown', hunseen'⟩ := hrest _ hown
      rw [Prog.run_op, hresult]
      exact ⟨hresult', hown', hunseen.trans hunseen'⟩

/-- A call whose reply is read after some effects of the adapter's own. -/
theorem call {c : FsCall} (unique : RequestId) {p : Routine Unit}
    (hp : p.Performs fun e : Effect => e.isOwn) {f : c.Reply → Routine α}
    {g : ℕ → c.Reply → TokioRoutine α} (hf : ∀ kept (reply : c.Reply),
      Simulates rt (kept ++ [⟨c, reply, .pure ()⟩]) (f reply) (g kept.length reply)) :
    Simulates rt kept (Routine.fs c >>= fun reply => p >>= fun _ => f reply)
      (TokioRoutine.call unique c >>= fun task => Routine.overTokio unique p >>= fun _ =>
        TokioRoutine.readReply task c >>= fun reply => g task reply) := by
  intro w hw _ hmeets
  rw [TokioWorld.runMeets_call hw] at hmeets
  rw [TokioWorld.run_call hw]
  obtain ⟨t, htasks, hkind, hown⟩ := run_pending rt unique hp hw (w := w.called rt unique c) rfl
  obtain ⟨-, hread, hmeets⟩ := Prog.runMeets_bind.mp hmeets
  obtain ⟨reply, hsent, hreply⟩ := TokioWorld.read_sent hw htasks
    (hkind.trans (TokioAdapter.start_kind rt.inner unique c)) hread
  rw [Prog.run_bind]
  set w' := ((Routine.overTokio unique p).run (tokioMachine rt) (w.called rt unique c)).2 with hw'
  change (g w.tasks.length (tokioMachine rt (.readReply w.tasks.length c) w').1).RunMeets _ _
    (tokioMachine rt (.readReply w.tasks.length c) w').2 at hmeets
  rw [hreply] at hmeets
  have hrun : ((TokioRoutine.readReply w.tasks.length c >>= fun reply => g w.tasks.length reply).run
      (tokioMachine rt) w') = (g w.tasks.length reply).run (tokioMachine rt) (w'.advance rt) := by
    rw [Prog.run_bind]
    change (g w.tasks.length (tokioMachine rt (.readReply w.tasks.length c) w').1).run _
      (tokioMachine rt (.readReply w.tasks.length c) w').2 = _
    rw [hreply]
  rw [hrun]
  have hsettled : (w'.advance rt).Settled := by
    intro u hu
    rw [hsent] at hu
    rcases List.mem_append.mp hu with hu | hu
    · exact hw u hu
    · rw [List.mem_singleton.mp hu]
      rfl
  obtain ⟨spawned, hspawned, hfinished, hrest⟩ := hf w.tasks reply (w'.advance rt) hsettled
    (hsent.symm ▸ List.prefix_rfl) hmeets
  refine ⟨⟨c, reply, .pure ()⟩ :: spawned, ?_, ?_, fun s later hs => ?_⟩
  · rw [hspawned, hsent, List.append_assoc]
    rfl
  · intro u hu
    rcases List.mem_cons.mp hu with rfl | hu
    · rfl
    · exact hfinished u hu
  · obtain ⟨hanswer, hcalled⟩ := World.scripted_call unique hs
    rw [Prog.run_bind, show (Routine.fs c).run rt.scriptedMachine s = rt.scriptedMachine (.fs c) s
      from rfl, hanswer, Prog.run_bind]
    obtain ⟨-, hown', hunseen⟩ := hown _ hcalled.own
    refine hrest _ later ⟨hown', hunseen.backend.trans hcalled.backend, fun i => ?_⟩
    rw [hunseen.granted, hcalled.granted, hsent]

theorem overTokio (unique : RequestId) (p : Routine α) :
    Simulates rt kept p (Routine.overTokio unique p) := by
  induction p generalizing kept with
  | pure a => exact .pure a
  | op e next ih =>
      by_cases h : e.isOwn
      · rw [overTokio_own unique h next]
        exact bind (own h) fun r => ih r
      · cases e with
        | fs c => exact call (p := Pure.pure ()) unique trivial fun _ reply => ih reply
        | _ => exact absurd rfl h

theorem findFiles (unique : RequestId) (fileName : U16CStr) (context : AdapterContext) :
    Simulates rt kept (Confuse.findFiles rt.pf fileName context)
      (findFilesOverTokio rt.pf unique fileName context) := by
  refine bind (overTokio unique _) fun found => ?_
  cases found with
  | error status => exact .pure _
  | ok ino =>
      refine bind (overTokio unique _) fun reqOffset => ?_
      refine call (p := drainResolverForgets _) unique ⟨rfl, fun _ => trivial⟩ fun kept reply => ?_
      refine bind (overTokio unique _) fun emitted => ?_
      cases emitted with
      | error status => exact .pure _
      | ok emittedOffset =>
          refine bind (overTokio unique _) fun _ => ?_
          -- the status is read again from the cell that the entries came from
          exact bind (readReply reply) fun (ended : ReplyDirectory) => .pure (statusResult ended.status)

theorem request (kept : List (Task S FsCall.Reply)) (unique : RequestId) (r : TokioRequest) :
    Simulates rt kept (r.routine rt.pf) (r.overTokio rt.pf unique) := by
  cases r with
  | findFiles fileName context => exact findFiles unique fileName context
  | _ => exact overTokio unique _

end Simulates

/-! ## Runs of requests -/

/-- What the answers to a request grant is recorded while the request is served. -/
theorem TokioRequest.booked (pf : Platform) (r : TokioRequest) : BookedRoutine (r.routine pf) := by
  cases r with
  | getFileInformation fileName context =>
      exact .of_plain (Callback.plainRoutine pf (c := .getFileInformation fileName context) rfl)
  | readFile fileName offset bufferLen context =>
      exact .of_plain (Callback.plainRoutine pf (c := .readFile fileName offset bufferLen context) rfl)
  | findFiles fileName context =>
      exact .of_plain (Callback.plainRoutine pf (c := .findFiles fileName context) rfl)
  | resolvePathIno req path => exact .resolvePathIno pf req path

end Simulation

namespace World
variable {β φ : Type} (pf : Platform) (h : Host β φ) (notices : Notices)

/-- What has been recorded is what has been granted. -/
def Recorded (w : World β φ) : Prop := ∀ i, along recorded w.log i = along granted w.log i

theorem Recorded.run {α : Type} {p : Routine α} (hp : BookedRoutine p) {w : World β φ}
    (hw : w.Recorded) : (p.run (machine pf h notices) w).2.Recorded := by
  intro i
  have hnew := (hp _ _ (newEvents_traces pf h notices p w)).settled i
  rw [run_log pf h notices p w, along_append, along_append, hw i, hnew]

theorem along_recorded_own (w : World β φ) (i : INodeNo) :
    along recorded w.own.log i = along recorded w.log i := by
  unfold own
  induction w.log with
  | nil => rfl
  | cons e log ih =>
      cases e with
      | call c reply =>
          rw [List.filter_cons_of_neg (by simp [Event.isCall]), along_cons, ih]
          exact (Nat.zero_add _).symm
      | _ => rw [List.filter_cons_of_pos rfl, along_cons, along_cons, ih]

end World

section Runs
variable {S : Signature} {σ φ : Type} (rt : TokioRuntime S σ φ)

/-- Serve requests over a file system that gives the listed answers. -/
def World.serveScripted : List TokioRequest → World Answers φ → World Answers φ
  | [], s => s
  | r :: requests, s => serveScripted requests ((r.routine rt.pf).run rt.scriptedMachine s).2

/-- The state of a run before its last request, and what that request leads to. -/
structure TokioRun (S : Signature) (σ φ : Type) where
  rt : TokioRuntime S σ φ
  negativeTtl : Duration
  backend : σ
  caller : φ
  earlier : List (RequestId × TokioRequest)
  unique : RequestId
  request : TokioRequest

namespace TokioRun
variable (run : TokioRun S σ φ)

/-- The result of the last request and the world after it. -/
def served : run.request.Result × TokioWorld S σ φ :=
  (run.request.overTokio run.rt.pf run.unique).run (tokioMachine run.rt)
    ((TokioWorld.mounted run.negativeTtl run.backend run.caller).serve run.rt run.earlier)

/-- The same requests over a file system that gives the answers of the run's tasks. -/
def answered : run.request.Result × World Answers φ :=
  (run.request.routine run.rt.pf).run run.rt.scriptedMachine
    ((World.initial run.negativeTtl (run.served.2.tasks.map Task.answer) run.caller).serveScripted
      run.rt (run.earlier.map Prod.snd))

def Timely : Prop :=
  (TokioWorld.mounted run.negativeTtl run.backend run.caller).EachTimely run.rt
    (run.earlier ++ [(run.unique, run.request)])

/-- All requests, as one program. -/
def program : TokioRoutine run.request.Result := do
  Prog.each (fun r => r.2.overTokio run.rt.pf r.1) run.earlier
  run.request.overTokio run.rt.pf run.unique

/-- Every expiry that the run computes is an instant. -/
def Lasts : Prop :=
  run.program.RunMeets (tokioMachine run.rt) (TokioEffect.Lasts run.rt)
    (TokioWorld.mounted run.negativeTtl run.backend run.caller)

instance : Decidable run.Lasts :=
  @Prog.RunMeets.decidable _ _ _ _ _ (TokioEffect.Lasts.decidable run.rt) _ _

/-- The run up to its end or to a panic. -/
def attempted : Except (TokioWorld S σ φ) (run.request.Result × TokioWorld S σ φ) :=
  run.program.attempt (panickingTokioMachine run.rt)
    (TokioWorld.mounted run.negativeTtl run.backend run.caller)

/-- The run does not panic, its last request is served as the answers of the file system determine,
and what they grant is recorded. -/
structure AsAnswered : Prop where
  returns : run.attempted = .ok run.served
  result : run.served.1 = run.answered.1
  adapter : run.served.2.adapter = run.answered.2.own
  sent : ∀ t ∈ run.served.2.tasks, t.finished ∧ t.kind.Answered t.cell
  recorded : ∀ i, TokioWorld.grants run.served.2.tasks i
    = along Event.recorded run.served.2.adapter.log i

end TokioRun

namespace TokioWorld
variable {rt} {w : TokioWorld S σ φ}

theorem eachTimely_append {l l' : List (RequestId × TokioRequest)} :
    w.EachTimely rt (l ++ l') ↔ w.EachTimely rt l ∧ (w.serve rt l).EachTimely rt l' := by
  induction l generalizing w with
  | nil => exact ⟨fun h => ⟨trivial, h⟩, And.right⟩
  | cons r l ih => exact (and_congr_right fun _ => ih).trans and_assoc.symm

theorem serve_eq_foldl (requests : List (RequestId × TokioRequest)) (w : TokioWorld S σ φ) :
    w.serve rt requests
      = requests.foldl (fun w r => ((r.2.overTokio rt.pf r.1).run (tokioMachine rt) w).2) w := by
  induction requests generalizing w with
  | nil => rfl
  | cons r requests ih => exact ih _

theorem serve_delivers (requests : List (RequestId × TokioRequest))
    (hw : ∀ t ∈ w.tasks, t.Delivers FsCall.Answered) :
    ∀ t ∈ (w.serve rt requests).tasks, t.Delivers FsCall.Answered := by
  induction requests generalizing w with
  | nil => exact hw
  | cons r requests ih => exact ih (run_delivers rt _ hw)

/-- A timely run of requests, from a world in which all tasks have returned. -/
theorem serve_mirrors (requests : List (RequestId × TokioRequest)) (hw : w.Settled)
    (htimely : w.EachTimely rt requests) :
    ∃ spawned, (w.serve rt requests).tasks = w.tasks ++ spawned ∧ (w.serve rt requests).Settled ∧
      ∀ (s : World Answers φ) later, s.Mirrors w (spawned.map Task.answer ++ later) → s.Recorded →
        (s.serveScripted rt (requests.map Prod.snd)).Mirrors (w.serve rt requests) later ∧
        (s.serveScripted rt (requests.map Prod.snd)).Recorded := by
  induction requests generalizing w with
  | nil => exact ⟨[], (List.append_nil _).symm, hw, fun s later hs hrecorded => ⟨hs, hrecorded⟩⟩
  | cons r requests ih =>
      obtain ⟨hfirst, hrest⟩ := htimely
      obtain ⟨spawned, htasks, hfinished, hsim⟩ := Simulates.request [] r.1 r.2 w hw
        List.nil_prefix hfirst
      have hw' : ((r.2.overTokio rt.pf r.1).run (tokioMachine rt) w).2.Settled := by
        intro t ht
        rw [htasks] at ht
        exact (List.mem_append.mp ht).elim (hw t) (hfinished t)
      obtain ⟨spawned', htasks', hsettled', hsim'⟩ := ih hw' hrest
      refine ⟨spawned ++ spawned', ?_, hsettled', fun s later hs hrecorded => ?_⟩
      · exact htasks'.trans (by rw [htasks, List.append_assoc])
      · rw [List.map_append, List.append_assoc] at hs
        exact hsim' _ later (hsim s _ hs).2 (hrecorded.run _ _ _ (TokioRequest.booked rt.pf r.2))

end TokioWorld

/-- Where every expiry is an instant, the run comes to its end. -/
theorem TokioRun.attempted_of_lasts (run : TokioRun S σ φ) (hlasts : run.Lasts) :
    run.attempted = .ok run.served := by
  refine ((panickingTokioMachine_stops run.rt).attempt_of_meets hlasts).trans (congrArg Except.ok ?_)
  unfold TokioRun.program
  rw [Prog.run_bind, Prog.run_each, ← TokioWorld.serve_eq_foldl]
  rfl

/-- A request of a timely run without a panic gets the result that the answers of the asynchronous file
system determine, no reply is missing, and every reference that the answers grant is recorded. -/
theorem answered_when_timely (run : TokioRun S σ φ) (htimely : run.Timely) (hlasts : run.Lasts) :
    run.AsAnswered := by
  obtain ⟨hearlier, hlast, -⟩ := TokioWorld.eachTimely_append.mp htimely
  have hmounted : (TokioWorld.mounted run.negativeTtl run.backend run.caller :
      TokioWorld S σ φ).Settled := by simp [TokioWorld.Settled, TokioWorld.mounted]
  obtain ⟨spawned, htasks, hsettled, hsim⟩ := TokioWorld.serve_mirrors run.earlier hmounted hearlier
  obtain ⟨spawned', htasks', hfinished, hsim'⟩ := Simulates.request [] run.unique
    run.request _ hsettled List.nil_prefix hlast
  have hanswers : run.served.2.tasks.map Task.answer
      = spawned.map Task.answer ++ (spawned'.map Task.answer ++ []) := by
    have hall : run.served.2.tasks = spawned ++ spawned' := htasks'.trans (by rw [htasks]; rfl)
    rw [hall, List.map_append, List.append_nil]
  have hstart : (World.initial run.negativeTtl (run.served.2.tasks.map Task.answer)
      run.caller).Mirrors (TokioWorld.mounted run.negativeTtl run.backend run.caller :
        TokioWorld S σ φ) (spawned.map Task.answer ++ (spawned'.map Task.answer ++ [])) :=
    ⟨rfl, hanswers, fun _ => rfl⟩
  obtain ⟨hmirrors, hrecorded⟩ := hsim _ _ hstart fun _ => rfl
  obtain ⟨hresult, hafter⟩ := hsim' _ [] hmirrors
  have hbooked := hrecorded.run run.rt.pf (run.rt.caller.host scripted) run.rt.notices
    (TokioRequest.booked run.rt.pf run.request)
  have hall : ∀ t ∈ run.served.2.tasks, t.finished := by
    intro t ht
    rw [show run.served.2.tasks = _ from htasks'] at ht
    exact (List.mem_append.mp ht).elim (hsettled t) (hfinished t)
  have hdelivers : ∀ t ∈ run.served.2.tasks, t.Delivers FsCall.Answered :=
    TokioWorld.run_delivers run.rt _ (TokioWorld.serve_delivers run.earlier
      (by simp [TokioWorld.mounted]))
  refine ⟨run.attempted_of_lasts hlasts, hresult.symm, hafter.own.symm, fun t ht => ?_, fun i => ?_⟩
  · exact ⟨hall t ht, (hdelivers t ht).finished_iff.mp (hall t ht)⟩
  · calc TokioWorld.grants run.served.2.tasks i
        = along granted run.answered.2.log i := (hafter.granted i).symm
      _ = along recorded run.answered.2.log i := (hbooked i).symm
      _ = along recorded run.answered.2.own.log i := (World.along_recorded_own _ i).symm
      _ = along recorded run.served.2.adapter.log i :=
          congrArg (fun adapter : World Unit φ => along recorded adapter.log i) hafter.own

end Runs

/-- One operation, which gives way to other tasks. -/
def yielding : Signature := ⟨Unit, fun _ => Unit⟩

/-- Every name is that of the file with inode 5, and every directory lists it. Each function gives
way once before it returns. -/
def oneFileAsync : AsyncFilesystem yielding where
  lookup _ _ _ := .op () fun _ => .pure (.ok ⟨.fromSecs 1, .plain ⟨5⟩ .regularFile, ⟨1⟩⟩)
  getattr _ _ _ := .op () fun _ => .pure (.ok ⟨.fromSecs 1, .plain ⟨5⟩ .regularFile⟩)
  read _ _ _ _ _ _ _ := .op () fun _ => .pure (.ok [104, 105])
  readdir _ _ _ _ :=
    .op (.inl ()) fun _ => .op (.inr ⟨⟨5⟩, 1, .regularFile, .new ['f']⟩) fun _ => .pure (.ok ())

/-- Requests for the file over a runtime with the given schedule. -/
def TokioRun.oneFile (schedule : ℕ → List ℕ) (earlier : List (RequestId × TokioRequest))
    (request : TokioRequest) : TokioRun yielding Unit Unit where
  rt := {
    pf := .ascii
    caller := ⟨fun _ => 0, fun _ caller => (true, caller), fun _ caller => (true, caller)⟩
    notices := undisturbed
    inner := oneFileAsync
    backend := fun _ s => ((), s)
    schedule }
  negativeTtl := .fromSecs 1
  backend := ()
  caller := ()
  earlier := earlier
  unique := ⟨2⟩
  request := request

def resolveF : TokioRequest := .resolvePathIno (requestFromIds (.unavailable 1)) fileF.path

/-- Every task is run to its end before a step of a handler. -/
def promptly : ℕ → List ℕ := fun _ => [0, 0, 0, 1, 1, 1]

theorem answered_when_timely_promptly :
    (TokioRun.oneFile promptly [(⟨1⟩, resolveF)] (.readFile fileF 0 1 {})).AsAnswered ∧
      (TokioRun.oneFile promptly [(⟨1⟩, resolveF)] (.readFile fileF 0 1 {})).served.1
        = .ok ⟨1, [104]⟩ :=
  ⟨answered_when_timely _ (by unfold TokioRun.Timely; decide) (by decide), by rfl⟩

/-- The task of `lookup` runs after the handler has read the reply cell. -/
def afterTheRead : ℕ → List ℕ := fun turn => if turn = 4 then [0, 0] else []

theorem late_reply_is_missed :
    ¬ ∀ (S : Signature) (σ φ : Type) (run : TokioRun S σ φ), run.AsAnswered := by
  intro hall
  have hrun := hall yielding Unit Unit (.oneFile afterTheRead [] resolveF)
  exact absurd (hrun.recorded ⟨5⟩) (by decide)

end Confuse
