import Confuse.ListingRuns
import Confuse.QueuedForgets

/-!
# Forgets at the end of a callback

What the resolution of a path releases is queued and delivered by a later drain. A resolution that fails
drains the queue itself; after one that succeeds the handler must drain it, and a handler that returns
earlier leaves it to the next callback.
-/

namespace Confuse

open Interaction PathResolver

section Runs
variable {β φ : Type} (pf : Platform) (h : Host β φ) (notices : Notices)

/-- The effect gives up no reference. -/
def Effect.KeepsReferences : effects.Op → World β φ → Prop
  | Effect.table o, w =>
      let w' := (notices w.steps).foldl (World.notify pf h) w
      ¬ o.GivesUp pf.caseFold (h.clock w'.steps) w'.resolver
  | _, _ => True

/-- Effects that neither queue nor deliver forgets. -/
def Effect.leavesQueue : Effect → Bool
  | .table (.cachedAttr _) | .table (.rememberAttr ..) | .table (.invalidateInodeAttr _) => true
  | .table _ | .deliver .. => false
  | _ => true

namespace World

theorem foldl_notify_queue (ns : List NotifierCall) {w : World β φ}
    (hw : w.resolver.pendingForgets = []) :
    (ns.foldl (notify pf h) w).resolver.pendingForgets = [] := by
  induction ns generalizing w with
  | nil => exact hw
  | cons n ns ih => exact ih (n.apply_pendingForgets pf.caseFold (h.clock w.steps) hw)

theorem machine_deliver_queue (req : Request) (o : DrainOp) (w : World β φ) :
    (machine pf h notices (.deliver req o) w).2.resolver.pendingForgets = [] := by
  change (((notices w.steps).foldl (notify pf h) w).deliver pf h req o).resolver.pendingForgets = []
  unfold deliver
  dsimp only
  rw [foldl_forget_resolver]
  exact o.apply_pendingForgets pf.caseFold _ _

/-- What no effect gives up is not queued. -/
theorem machine_queue {e : Effect} {w : World β φ} (he : Effect.KeepsReferences pf h notices e w)
    (hw : w.resolver.pendingForgets = []) :
    (machine pf h notices e w).2.resolver.pendingForgets = [] := by
  have hbefore := foldl_notify_queue pf h (notices w.steps) hw
  cases e with
  | table o => exact ((o.queues pf.caseFold _ _).same.mpr he).trans hbefore
  | deliver req o => exact machine_deliver_queue pf h notices req o w
  | _ => exact hbefore

theorem keepsReferences_of_leavesQueue {e : Effect} (he : e.leavesQueue = true) (w : World β φ) :
    Effect.KeepsReferences pf h notices e w := by
  cases e with
  | table o => cases o <;> first | exact id | cases he
  | _ => trivial

theorem machine_still {e : Effect} (he : e.leavesQueue = true) (w : World β φ) :
    (machine pf h undisturbed e w).2.resolver.pendingForgets = w.resolver.pendingForgets := by
  cases e with
  | table o =>
      have hkept : ¬ o.GivesUp pf.caseFold (h.clock w.steps) w.resolver :=
        keepsReferences_of_leavesQueue pf h undisturbed he w
      exact (o.queues pf.caseFold (h.clock w.steps) w.resolver).same.mpr hkept
  | deliver req o => cases he
  | _ => rfl

end World

variable {α γ : Type}

/-- The routine ends with an empty queue. -/
def Empties (p : Routine α) : Prop :=
  ∀ w : World β φ, (p.run (machine pf h notices) w).2.resolver.pendingForgets = []

/-- A queue that is empty before the routine is empty after it. -/
def KeepsEmpty (p : Routine α) : Prop :=
  ∀ w : World β φ, w.resolver.pendingForgets = [] →
    (p.run (machine pf h notices) w).2.resolver.pendingForgets = []

/-- The routine ends with an empty queue if it fails. -/
def FailsEmpty {ε : Type} (p : Routine (Except ε α)) : Prop :=
  ∀ (w : World β φ) (err : ε), (p.run (machine pf h notices) w).1 = .error err →
    (p.run (machine pf h notices) w).2.resolver.pendingForgets = []

variable {pf h notices}

namespace KeepsEmpty

theorem pure (a : α) : KeepsEmpty pf h notices (Pure.pure a : Routine α) := fun _ hw => hw

theorem bind {p : Routine α} {f : α → Routine γ} (hp : KeepsEmpty pf h notices p)
    (hf : ∀ a, KeepsEmpty pf h notices (f a)) : KeepsEmpty pf h notices (p >>= f) := by
  intro w hw
  rw [Prog.run_bind]
  exact hf _ _ (hp w hw)

theorem of_empties {p : Routine α} (hp : Empties pf h notices p) : KeepsEmpty pf h notices p :=
  fun w _ => hp w

theorem of_runMeets {p : Routine α} {w : World β φ}
    (hp : p.RunMeets (machine pf h notices) (Effect.KeepsReferences pf h notices) w)
    (hw : w.resolver.pendingForgets = []) :
    (p.run (machine pf h notices) w).2.resolver.pendingForgets = [] := by
  induction p generalizing w with
  | pure a => exact hw
  | op e next ih => exact ih _ hp.2 (World.machine_queue pf h notices hp.1 hw)

theorem effect {e : Effect} (he : e.leavesQueue = true) :
    KeepsEmpty pf h notices (Prog.perform (S := effects) e) := fun w hw =>
  World.machine_queue pf h notices (World.keepsReferences_of_leavesQueue pf h notices he w) hw

theorem onOk {result : Except NtStatus γ} {f : γ → Routine (Except NtStatus α)}
    (hf : ∀ v, KeepsEmpty pf h notices (f v)) : KeepsEmpty pf h notices (onOk result f) :=
  onOk_cases (fun _ => pure _) hf

theorem onReply {reply : Reply γ} {toNtstatus : Errno → NtStatus}
    {f : γ → Routine (Except NtStatus α)} (hf : ∀ v, KeepsEmpty pf h notices (f v)) :
    KeepsEmpty pf h notices (onReply reply toNtstatus f) :=
  onReply_cases (fun _ => pure _) fun v _ => hf v

end KeepsEmpty

namespace Empties

theorem deliver (req : Request) (o : DrainOp) : Empties pf h notices (Routine.deliver req o) :=
  World.machine_deliver_queue pf h notices req o

theorem after {p : Routine α} {f : α → Routine γ} (hf : ∀ a, Empties pf h notices (f a)) :
    Empties pf h notices (p >>= f) := by
  intro w
  rw [Prog.run_bind]
  exact hf _ _

theorem before {p : Routine α} {f : α → Routine γ} (hp : Empties pf h notices p)
    (hf : ∀ a, KeepsEmpty pf h notices (f a)) : Empties pf h notices (p >>= f) := by
  intro w
  rw [Prog.run_bind]
  exact hf _ _ (hp w)

/-- A drain, and nothing that releases a reference after it. -/
theorem drained (req : Request) {f : Unit → Routine α} (hf : ∀ a, KeepsEmpty pf h notices (f a)) :
    Empties pf h notices (drainResolverForgets req >>= f) := before (deliver req _) hf

theorem rememberNegativeLookup (req : Request) (err : Errno) (component : LookupComponent) :
    Empties pf h notices (rememberNegativeLookup req err component) := by
  unfold Confuse.rememberNegativeLookup
  split_ifs
  · exact after fun _ => deliver req _
  · exact deliver req _

/-- Something that drains when it fails, and then something that drains. -/
theorem resolved {ε : Type} {p : Routine (Except ε α)} {f : Except ε α → Routine γ}
    (hp : FailsEmpty pf h notices p) (herror : ∀ err, KeepsEmpty pf h notices (f (.error err)))
    (hok : ∀ a, Empties pf h notices (f (.ok a))) : Empties pf h notices (p >>= f) := by
  intro w
  rw [Prog.run_bind]
  cases hresult : (p.run (machine pf h notices) w).1 with
  | error err => exact herror err _ (hp w err hresult)
  | ok a => exact hok a _

end Empties

namespace FailsEmpty
variable {ε : Type} (req : Request)

theorem pure_ok (a : α) : FailsEmpty pf h notices (Pure.pure (.ok a) : Routine (Except ε α)) := by
  intro w err herr
  cases herr

theorem of_empties {p : Routine (Except ε α)} (hp : Empties pf h notices p) :
    FailsEmpty pf h notices p := fun w _ _ => hp w

theorem bind {p : Routine γ} {f : γ → Routine (Except ε α)}
    (hf : ∀ a, FailsEmpty pf h notices (f a)) : FailsEmpty pf h notices (p >>= f) := by
  intro w err herr
  rw [Prog.run_bind] at herr ⊢
  exact hf _ _ err herr

/-- A failure of the first part is handed on. -/
theorem andThen {δ : Type} {p : Routine (Except ε γ)} {f : Except ε γ → Routine (Except δ α)}
    (hp : FailsEmpty pf h notices p) (herror : ∀ err, KeepsEmpty pf h notices (f (.error err)))
    (hok : ∀ a, FailsEmpty pf h notices (f (.ok a))) : FailsEmpty pf h notices (p >>= f) := by
  intro w err herr
  rw [Prog.run_bind] at herr ⊢
  cases hresult : (p.run (machine pf h notices) w).1 with
  | error err' => exact herror err' _ (hp w err' hresult)
  | ok a =>
      rw [hresult] at herr
      exact hok a _ err herr

theorem cachedPathComponent (path : OsStr) (parent : INodeNo) (parentGeneration : Generation) :
    FailsEmpty pf h notices (cachedPathComponent req path parent parentGeneration) := by
  refine bind fun cached => ?_
  rcases cached with _ | ⟨err⟩ | ⟨entry⟩
  · exact pure_ok _
  · exact of_empties (.drained req fun _ => .pure _)
  · exact pure_ok _

theorem lookupPathComponent (component : LookupComponent) :
    FailsEmpty pf h notices (lookupPathComponent req component) := by
  refine bind fun status => ?_
  rcases status with _ | ⟨err⟩ | ⟨payload⟩
  · exact of_empties (.drained req fun _ => .pure _)
  · exact of_empties (.before (.rememberNegativeLookup req err component) fun _ => .pure _)
  · exact bind fun _ => pure_ok _

theorem resolveComponent (component : LookupComponent) :
    FailsEmpty pf h notices (resolveComponent req component) := by
  refine andThen (cachedPathComponent req _ _ _) (fun _ => .pure _) fun cached => ?_
  cases cached with
  | none => exact lookupPathComponent req component
  | some entry => exact pure_ok _

theorem walkComponents (currentPath : Str) (current : ResolvedEntry) (components : List Str) :
    FailsEmpty pf h notices (walkComponents req currentPath current components) := by
  induction components generalizing currentPath current with
  | nil => exact pure_ok _
  | cons component rest ih =>
      exact andThen (resolveComponent req _) (fun _ => .pure _) fun entry => ih _ entry

variable (pf) in
theorem resolvePathIno (path : OsStr) : FailsEmpty pf h notices (resolvePathIno pf req path) := by
  unfold Confuse.resolvePathIno
  split_ifs
  · exact pure_ok _
  · exact bind fun _ => andThen (walkComponents req _ _ _) (fun _ => .pure _) fun _ => pure_ok _

variable (pf) in
theorem resolveContextOrPath (path : U16CStr) (context : AdapterContext) :
    FailsEmpty pf h notices (resolveContextOrPath pf req path context) := by
  unfold Confuse.resolveContextOrPath
  cases resolveCtx path context with
  | some ctx => exact pure_ok _
  | none => exact andThen (resolvePathIno pf req _) (fun _ => .pure _) fun _ => pure_ok _

end FailsEmpty

/-! ## What a resolution that succeeds leaves queued -/

variable (pf h) in
/-- If the routine succeeds and the queue is empty after it, it was empty before and nothing was queued
in between. -/
def ShowsQueue {ε : Type} (p : Routine (Except ε α)) : Prop :=
  ∀ (w : World β φ) (a : α), (p.run (machine pf h undisturbed) w).1 = .ok a →
    (p.run (machine pf h undisturbed) w).2.resolver.pendingForgets = [] →
      w.resolver.pendingForgets = [] ∧
        p.RunMeets (machine pf h undisturbed) (Effect.KeepsReferences pf h undisturbed) w

namespace ShowsQueue
variable {ε : Type} (req : Request)

theorem pure_ok (a : α) : ShowsQueue pf h (Pure.pure (.ok a) : Routine (Except ε α)) :=
  fun _ _ _ hempty => ⟨hempty, trivial⟩

theorem failed {p : Routine γ} (err : ε) :
    ShowsQueue pf h (p >>= fun _ => (Pure.pure (.error err) : Routine (Except ε α))) := by
  intro w a hok
  rw [Prog.run_bind] at hok
  cases hok

theorem andThen {δ : Type} {p : Routine (Except ε γ)} {f : Except ε γ → Routine (Except δ α)}
    (hp : ShowsQueue pf h p) (herror : ∀ err, ∃ err', f (.error err) = Pure.pure (.error err'))
    (hok : ∀ a, ShowsQueue pf h (f (.ok a))) : ShowsQueue pf h (p >>= f) := by
  intro w a ha hempty
  rw [Prog.run_bind] at ha hempty
  rw [Prog.runMeets_bind]
  cases hresult : (p.run (machine pf h undisturbed) w).1 with
  | error err =>
      obtain ⟨err', hf⟩ := herror err
      rw [hresult, hf] at ha
      cases ha
  | ok b =>
      rw [hresult] at ha hempty
      obtain ⟨hmiddle, hrest⟩ := hok b _ a ha hempty
      obtain ⟨hfirst, hmeets⟩ := hp w b hresult hmiddle
      exact ⟨hfirst, hmeets, hrest⟩

/-- A section that leaves the queue empty gives up nothing. -/
theorem table (o : TableOp) {f : o.Result → Routine (Except ε α)} (hf : ∀ r, ShowsQueue pf h (f r)) :
    ShowsQueue pf h (Routine.table o >>= f) := by
  intro w a ha hempty
  rw [Prog.run_bind] at ha hempty
  rw [Prog.runMeets_bind]
  obtain ⟨hmiddle, hrest⟩ := hf _ _ a ha hempty
  obtain ⟨hfirst, hkept⟩ := (o.queues pf.caseFold (h.clock w.steps) w.resolver).of_nil hmiddle
  exact ⟨hfirst, ⟨hkept, trivial⟩, hrest⟩

theorem call (c : FsCall) {f : c.Reply → Routine (Except ε α)} (hf : ∀ r, ShowsQueue pf h (f r)) :
    ShowsQueue pf h (Routine.fs c >>= f) := by
  intro w a ha hempty
  rw [Prog.run_bind] at ha hempty
  rw [Prog.runMeets_bind]
  obtain ⟨hmiddle, hrest⟩ := hf _ _ a ha hempty
  exact ⟨hmiddle, ⟨trivial, trivial⟩, hrest⟩

theorem cachedPathComponent (path : OsStr) (parent : INodeNo) (parentGeneration : Generation) :
    ShowsQueue pf h (cachedPathComponent req path parent parentGeneration) := by
  refine table (.cached path parent parentGeneration) fun cached => ?_
  rcases cached with _ | ⟨err⟩ | ⟨entry⟩
  · exact pure_ok _
  · exact failed err
  · exact pure_ok _

theorem lookupPathComponent (component : LookupComponent) :
    ShowsQueue pf h (lookupPathComponent req component) := by
  refine call (.lookup req component.parent component.name) fun status => ?_
  rcases status with _ | ⟨err⟩ | ⟨payload⟩
  · exact failed EIO
  · exact failed err
  · exact table (.rememberPositive _) fun entry => pure_ok entry

theorem resolveComponent (component : LookupComponent) :
    ShowsQueue pf h (resolveComponent req component) := by
  refine andThen (cachedPathComponent req _ _ _) (fun err => ⟨err, rfl⟩) fun cached => ?_
  cases cached with
  | none => exact lookupPathComponent req component
  | some entry => exact pure_ok entry

theorem walkComponents (currentPath : Str) (current : ResolvedEntry) (components : List Str) :
    ShowsQueue pf h (walkComponents req currentPath current components) := by
  induction components generalizing currentPath current with
  | nil => exact pure_ok current
  | cons component rest ih =>
      exact andThen (resolveComponent req _) (fun err => ⟨err, rfl⟩) fun entry => ih _ entry

variable (pf) in
/-- The queue is drained before the walk, and shows what the walk gives up. -/
theorem resolvePathIno (path : OsStr) (w : World β φ) (ino : INodeNo)
    (hok : ((resolvePathIno pf req path).run (machine pf h undisturbed) w).1 = .ok ino)
    (hempty : ((resolvePathIno pf req path).run (machine pf h undisturbed) w).2.resolver.pendingForgets
      = []) : (resolvePathIno pf req path).RunMeets (machine pf h undisturbed)
        (Effect.KeepsReferences pf h undisturbed) w := by
  unfold Confuse.resolvePathIno at hok hempty ⊢
  split_ifs at hok hempty ⊢
  · trivial
  · rw [Prog.run_bind] at hok hempty
    rw [Prog.runMeets_bind]
    refine ⟨⟨trivial, trivial⟩, (andThen (walkComponents req _ _ _) ?_ ?_ _ ino hok hempty).2⟩
    · exact fun err => ⟨err, rfl⟩
    · exact fun entry => pure_ok entry.ino

variable (pf) in
theorem resolveContextOrPath (path : U16CStr) (context : AdapterContext) (w : World β φ)
    (ctx : AdapterContext)
    (hok : ((resolveContextOrPath pf req path context).run (machine pf h undisturbed) w).1 = .ok ctx)
    (hempty : ((resolveContextOrPath pf req path context).run (machine pf h undisturbed)
      w).2.resolver.pendingForgets = []) :
    (resolveContextOrPath pf req path context).RunMeets (machine pf h undisturbed)
      (Effect.KeepsReferences pf h undisturbed) w := by
  unfold Confuse.resolveContextOrPath at hok hempty ⊢
  cases hctx : resolveCtx path context with
  | some ctx => trivial
  | none =>
      rw [hctx] at hok hempty
      dsimp only at hok hempty ⊢
      rw [Prog.run_bind] at hok hempty
      rw [Prog.runMeets_bind]
      cases hino : ((Confuse.resolvePathIno pf req path.path).run (machine pf h undisturbed) w).1 with
      | error err =>
          rw [hino] at hok
          cases hok
      | ok ino =>
          rw [hino] at hempty
          exact ⟨resolvePathIno pf req _ w ino hino hempty, trivial⟩

end ShowsQueue

/-! ## Handlers that leave before their drain -/

variable (pf h notices) in
/-- The routine leaves the queue as it is if `exit` holds before it, and empties it if not. -/
structure LeavesAt (exit : World β φ → Prop) (p : Routine α) : Prop where
  keeps : ∀ w, exit w → w.resolver.pendingForgets = [] →
    (p.run (machine pf h notices) w).2.resolver.pendingForgets = []
  still : notices = undisturbed → ∀ w, exit w →
    (p.run (machine pf h notices) w).2.resolver.pendingForgets = w.resolver.pendingForgets
  empties : ∀ w, ¬ exit w → (p.run (machine pf h notices) w).2.resolver.pendingForgets = []

namespace LeavesAt
variable {exit : World β φ → Prop}

theorem pure (a : α) (hexit : ∀ w, exit w) :
    LeavesAt pf h notices exit (Pure.pure a : Routine α) where
  keeps := fun _ _ hw => hw
  still := fun _ _ _ => rfl
  empties := fun w hw => absurd (hexit w) hw

theorem of_empties {p : Routine α} (hp : Empties pf h notices p) (hexit : ∀ w, ¬ exit w) :
    LeavesAt pf h notices exit p where
  keeps := fun w hw => absurd hw (hexit w)
  still := fun _ w hw => absurd hw (hexit w)
  empties := fun w _ => hp w

theorem congr {exit' : World β φ → Prop} {p : Routine α} (hp : LeavesAt pf h notices exit p)
    (hexit : ∀ w, exit w ↔ exit' w) : LeavesAt pf h notices exit' p where
  keeps := fun w hw => hp.keeps w ((hexit w).mpr hw)
  still := fun hquiet w hw => hp.still hquiet w ((hexit w).mpr hw)
  empties := fun w hw => hp.empties w (mt (hexit w).mp hw)

theorem call (c : FsCall) (exit : c.Reply → φ → Prop) {f : c.Reply → Routine α}
    (hf : ∀ r, LeavesAt pf h notices (fun w => exit r w.caller) (f r)) :
    LeavesAt pf h notices (fun w => exit (h.reply c w.backend).1 w.caller) (Routine.fs c >>= f) := by
  have hcaller : ∀ w : World β φ, (machine pf h notices (.fs c) w).2.caller = w.caller := fun w =>
    (World.foldl_notify_caller pf h (notices w.steps) w).1
  have hexit : ∀ w : World β φ, exit (h.reply c w.backend).1 w.caller
      ↔ exit (machine pf h notices (.fs c) w).1 (machine pf h notices (.fs c) w).2.caller := by
    intro w
    rw [World.machine_fs_reply, hcaller]
  constructor
  · intro w hw hempty
    exact (hf _).keeps _ ((hexit w).mp hw) (KeepsEmpty.effect rfl w hempty)
  · intro hquiet w hw
    refine ((hf _).still hquiet _ ((hexit w).mp hw)).trans ?_
    subst hquiet
    exact World.machine_still pf h rfl w
  · intro w hw
    exact (hf _).empties _ (mt (hexit w).mpr hw)

/-- The caller decides whether the routine goes on. -/
theorem fill (data : FindStreamData) {f : Bool → Routine α} {a : α} (hrefused : f false = Pure.pure a)
    (haccepted : Empties pf h notices (f true)) :
    LeavesAt pf h notices (fun w => (h.fillFindStreamData data w.caller).1 = false)
      (Routine.fillFindStreamData data >>= f) := by
  have hanswer : ∀ w : World β φ, (machine pf h notices (.fillFindStreamData data) w).1
      = (h.fillFindStreamData data w.caller).1 := fun w =>
    congrArg (fun c => (h.fillFindStreamData data c).1)
      (World.foldl_notify_caller pf h (notices w.steps) w).1
  have hrun : ∀ w : World β φ, (h.fillFindStreamData data w.caller).1 = false →
      ((Routine.fillFindStreamData data >>= f).run (machine pf h notices) w).2
        = (machine pf h notices (.fillFindStreamData data) w).2 := by
    intro w hw
    change ((f (machine pf h notices (.fillFindStreamData data) w).1).run _ _).2 = _
    rw [hanswer, hw, hrefused]
    rfl
  constructor
  · intro w hw hempty
    rw [hrun w hw]
    exact KeepsEmpty.effect (e := .fillFindStreamData data) rfl w hempty
  · intro hquiet w hw
    rw [hrun w hw]
    subst hquiet
    exact World.machine_still pf h rfl w
  · intro w hw
    have htrue : (machine pf h notices (.fillFindStreamData data) w).1 = true := by
      rw [hanswer]
      exact Bool.of_not_eq_false hw
    have hempty := haccepted (machine pf h notices (.fillFindStreamData data) w).2
    rw [← htrue] at hempty
    exact hempty

end LeavesAt

/-! ## The handlers -/

variable (pf h notices) in
/-- If the path is resolved and the handler leaves before its drain, the resolution gives up no
reference. -/
def World.PaidUp (fileName : U16CStr) (context : AdapterContext)
    (exit : AdapterContext → World β φ → Prop) (w : World β φ) : Prop :=
  let resolution := resolveContextOrPath pf (requestFromIds context.requestIds) fileName context
  ∀ resolved, (resolution.run (machine pf h notices) w).1 = .ok resolved →
    exit resolved (resolution.run (machine pf h notices) w).2 →
      resolution.RunMeets (machine pf h notices) (Effect.KeepsReferences pf h notices) w

variable (pf h notices) in
/-- The queue is empty after the routine, and without interference only if `paid`. -/
def EmptiesIf (paid : World β φ → Prop) (p : Routine α) : Prop :=
  ∀ w : World β φ, w.resolver.pendingForgets = [] →
    (paid w → (p.run (machine pf h notices) w).2.resolver.pendingForgets = []) ∧
    (notices = undisturbed → (p.run (machine pf h notices) w).2.resolver.pendingForgets = [] → paid w)

theorem KeepsEmpty.emptiesIf {p : Routine α} (hp : KeepsEmpty pf h notices p) :
    EmptiesIf pf h notices (fun _ => True) p := fun w hw => ⟨fun _ => hp w hw, fun _ _ => trivial⟩

theorem EmptiesIf.withResolved {fileName : U16CStr} {context : AdapterContext}
    {exit : AdapterContext → World β φ → Prop}
    {f : AdapterContext → Routine (Except NtStatus α)}
    (hf : ∀ resolved, LeavesAt pf h notices (exit resolved) (f resolved)) :
    EmptiesIf pf h notices (World.PaidUp pf h notices fileName context exit)
      (withResolved pf (requestFromIds context.requestIds) fileName context f) := by
  intro w hw
  unfold Confuse.withResolved World.PaidUp
  dsimp only
  rw [Prog.run_bind]
  cases hresult : ((resolveContextOrPath pf (requestFromIds context.requestIds) fileName context).run
      (machine pf h notices) w).1 with
  | error err =>
      refine ⟨fun _ => ?_, fun _ _ resolved hok => by cases hok⟩
      exact FailsEmpty.resolveContextOrPath pf _ fileName context w err hresult
  | ok resolved =>
      dsimp only
      by_cases hexit : exit resolved ((resolveContextOrPath pf (requestFromIds context.requestIds)
          fileName context).run (machine pf h notices) w).2
      · constructor
        · intro hpaid
          exact (hf resolved).keeps _ hexit
            (KeepsEmpty.of_runMeets (hpaid resolved rfl hexit) hw)
        · intro hquiet hempty resolved' hok _
          rw [(hf resolved).still hquiet _ hexit] at hempty
          subst hquiet
          exact ShowsQueue.resolveContextOrPath pf _ fileName context w resolved hresult hempty
      · refine ⟨fun _ => (hf resolved).empties _ hexit, fun _ _ resolved' hok hexit' => ?_⟩
        cases hok
        exact absurd hexit' hexit

theorem Empties.withResolved (req : Request) {fileName : U16CStr} {context : AdapterContext}
    {f : AdapterContext → Routine (Except NtStatus α)}
    (hf : ∀ resolved, Empties pf h notices (f resolved)) :
    Empties pf h notices (withResolved pf req fileName context f) :=
  resolved (.resolveContextOrPath pf req fileName context) (fun _ => .pure _) hf

end Runs
end Confuse
