import Confuse.EventLog
import Confuse.Handlers

/-!
# Callbacks and their runs

A run serves any callbacks one after the other, with any arguments. The log of a run is legal for the
resolver it starts from, and replaying it gives the resolver it ends with.
-/

namespace Confuse

open Interaction

inductive Callback
  | createFile (fileName : U16CStr) (desiredAccess : AccessMask)
      (fileAttributes createDisposition createOptions : UInt32) (requestIds : RequestIds)
  | cleanup (fileName : U16CStr) (deleteOnClose : Bool) (context : AdapterContext)
  | closeFile (fileName : U16CStr) (context : AdapterContext)
  | deleteFile (fileName : U16CStr) (context : AdapterContext)
  | deleteDirectory (fileName : U16CStr) (context : AdapterContext)
  | moveFile (fileName newFileName : U16CStr) (replaceIfExisting : Bool) (context : AdapterContext)
  | findFiles (fileName : U16CStr) (context : AdapterContext)
  | findFilesWithPattern (fileName pattern : U16CStr) (context : AdapterContext)
  | flushFileBuffers (fileName : U16CStr) (context : AdapterContext)
  | setEndOfFile (fileName : U16CStr) (offset : Int64) (context : AdapterContext)
  | setFileAttributes (fileName : U16CStr) (fileAttributes : UInt32) (context : AdapterContext)
  | setFileTime (fileName : U16CStr)
      (creationTime lastAccessTime lastWriteTime : FileTimeOperation) (context : AdapterContext)
  | setAllocationSize (fileName : U16CStr) (allocSize : Int64) (context : AdapterContext)
  | getDiskFreeSpace (pid : UInt32)
  | getFileInformation (fileName : U16CStr) (context : AdapterContext)
  | readFile (fileName : U16CStr) (offset : Int64) (bufferLen : ℕ) (context : AdapterContext)
  | writeFile (fileName : U16CStr) (offset : Int64) (buffer : List UInt8)
      (writeToEof pagingIo : Bool) (context : AdapterContext)
  | getFileSecurity (fileName : U16CStr) (hasBuffer : Bool) (bufferLength : UInt32)
      (context : AdapterContext)
  | setFileSecurity (fileName : U16CStr) (descriptor : List UInt8) (context : AdapterContext)
  | lockFile (fileName : U16CStr) (offset length : Int64) (context : AdapterContext)
  | unlockFile (fileName : U16CStr) (offset length : Int64) (context : AdapterContext)
  | findStreams (fileName : U16CStr) (context : AdapterContext)

namespace Callback

def Result : Callback → Type
  | .createFile .. => Except NtStatus CreateFileInfo
  | .cleanup .. | .closeFile .. => Unit
  | .getDiskFreeSpace .. => Except NtStatus DiskSpaceInfo
  | .getFileInformation .. => Except NtStatus FileInfo
  | .readFile .. => Except NtStatus ReadResult
  | .writeFile .. => Except NtStatus UInt32
  | .getFileSecurity .. => Except NtStatus DescriptorCopy
  | _ => Except NtStatus Unit

def routine (pf : Platform) : (c : Callback) → Routine c.Result
  | .createFile fileName desiredAccess fileAttributes createDisposition createOptions requestIds =>
      Confuse.createFile pf fileName desiredAccess fileAttributes createDisposition createOptions
        requestIds
  | .cleanup fileName deleteOnClose context => Confuse.cleanup pf fileName deleteOnClose context
  | .closeFile fileName context => Confuse.closeFile fileName context
  | .deleteFile fileName context => Confuse.deleteFile pf fileName context
  | .deleteDirectory fileName context => Confuse.deleteDirectory pf fileName context
  | .moveFile fileName newFileName replaceIfExisting context =>
      Confuse.moveFile pf fileName newFileName replaceIfExisting context
  | .findFiles fileName context => Confuse.findFiles pf fileName context
  | .findFilesWithPattern fileName pattern context =>
      Confuse.findFilesWithPattern pf fileName pattern context
  | .flushFileBuffers fileName context => Confuse.flushFileBuffers pf fileName context
  | .setEndOfFile fileName offset context => Confuse.setEndOfFile pf fileName offset context
  | .setFileAttributes fileName fileAttributes context =>
      Confuse.setFileAttributes pf fileName fileAttributes context
  | .setFileTime fileName creationTime lastAccessTime lastWriteTime context =>
      Confuse.setFileTime pf fileName creationTime lastAccessTime lastWriteTime context
  | .setAllocationSize fileName allocSize context =>
      Confuse.setAllocationSize pf fileName allocSize context
  | .getDiskFreeSpace pid => Confuse.getDiskFreeSpace pid
  | .getFileInformation fileName context => Confuse.getFileInformation pf fileName context
  | .readFile fileName offset bufferLen context =>
      Confuse.readFile pf fileName offset bufferLen context
  | .writeFile fileName offset buffer writeToEof pagingIo context =>
      Confuse.writeFile pf fileName offset buffer writeToEof pagingIo context
  | .getFileSecurity fileName hasBuffer bufferLength context =>
      Confuse.getFileSecurity pf fileName hasBuffer bufferLength context
  | .setFileSecurity fileName descriptor context =>
      Confuse.setFileSecurity pf fileName descriptor context
  | .lockFile fileName offset length context => Confuse.lockFile pf fileName offset length context
  | .unlockFile fileName offset length context =>
      Confuse.unlockFile pf fileName offset length context
  | .findStreams fileName context => Confuse.findStreams pf fileName context

end Callback

/-! ## Runs and their logs -/

/-- The host can give the answer that an event shows. -/
def Event.AnsweredBy {β φ : Type} (h : Host β φ) : Event → Prop
  | .call c reply => ∃ b, reply = (h.reply c b).1
  | .fillFindData data accepted => ∃ caller, accepted = (h.fillFindData data caller).1
  | .fillFindStreamData data accepted => ∃ caller, accepted = (h.fillFindStreamData data caller).1
  | _ => True

namespace World
variable {β φ : Type} (pf : Platform) (h : Host β φ) (notices : Notices)

/-- Serve callbacks one after the other. -/
def serve (callbacks : List Callback) (w : World β φ) : World β φ :=
  callbacks.foldl (fun w c => ((c.routine pf).run (machine pf h notices) w).2) w

@[simp] theorem serve_nil (w : World β φ) : w.serve pf h notices [] = w := rfl

@[simp] theorem serve_cons (c : Callback) (callbacks : List Callback) (w : World β φ) :
    w.serve pf h notices (c :: callbacks)
      = ((c.routine pf).run (machine pf h notices) w).2.serve pf h notices callbacks := rfl

/-- The events that lead from one world to another. -/
structure Leads (w : World β φ) (evs : List Event) (w' : World β φ) : Prop where
  log : w'.log = w.log ++ evs
  legal : Legal pf.caseFold w.resolver evs
  resolver : w'.resolver = replay pf.caseFold w.resolver evs

variable {pf}

theorem leads_nil {w w' : World β φ} (hlog : w'.log = w.log) (hresolver : w'.resolver = w.resolver) :
    w.Leads pf [] w' := ⟨by rw [hlog, List.append_nil], trivial, hresolver⟩

theorem Leads.append {w w' w'' : World β φ} {evs evs' : List Event} (hl : w.Leads pf evs w')
    (hl' : w'.Leads pf evs' w'') : w.Leads pf (evs ++ evs') w'' where
  log := by rw [hl'.log, hl.log, List.append_assoc]
  legal := legal_append.mpr ⟨hl.legal, hl.resolver ▸ hl'.legal⟩
  resolver := by rw [hl'.resolver, hl.resolver, replay_append]

theorem leads_of_event {w w' : World β φ} (e : Event) (hlog : w'.log = w.log ++ [e])
    (hlegal : e.Legal pf.caseFold w.resolver)
    (hresolver : w'.resolver = e.replay pf.caseFold w.resolver) : w.Leads pf [e] w' :=
  ⟨hlog, ⟨hlegal, trivial⟩, hresolver⟩

variable (pf) in
theorem foldl_notify_leads (ns : List NotifierCall) (w : World β φ) :
    ∃ notes, (∀ n ∈ notes, Event.isNotify n) ∧ w.Leads pf notes (ns.foldl (notify pf h) w) ∧
      (ns = [] → notes = []) := by
  induction ns generalizing w with
  | nil => exact ⟨[], by simp, leads_nil rfl rfl, fun _ => rfl⟩
  | cons n ns ih =>
      obtain ⟨notes, hnotes, hleads, -⟩ := ih (notify pf h w n)
      refine ⟨[.notify (h.clock w.steps) n] ++ notes, ?_, ?_, by simp⟩
      · simpa [Event.isNotify] using hnotes
      · exact (leads_of_event (.notify (h.clock w.steps) n) rfl trivial rfl).append hleads

theorem foldl_forget_resolver (req : Request) (forgets : Forgets) (w : World β φ) :
    (forgets.foldl (forget h req) w).resolver = w.resolver := by
  induction forgets generalizing w with
  | nil => rfl
  | cons f forgets ih => exact ih (w.forget h req f)

theorem foldl_forget_leads (req : Request) (forgets : Forgets) (w : World β φ) :
    w.Leads pf (forgets.map fun f => .forget req f.1 f.2) (forgets.foldl (forget h req) w) := by
  induction forgets generalizing w with
  | nil => exact leads_nil rfl rfl
  | cons f forgets ih =>
      have hstep : w.Leads pf [.forget req f.1 f.2] (forget h req w f) :=
        leads_of_event _ rfl trivial rfl
      exact hstep.append (ih (forget h req w f))

variable (pf) in
theorem perform_leads (e : Effect) (w : World β φ) :
    ∃ own, e.Leaves (w.perform pf h e).1 own ∧ w.Leads pf own (w.perform pf h e).2 := by
  cases e with
  | fs c => exact ⟨_, rfl, leads_of_event (.call c (h.reply c w.backend).1) rfl trivial rfl⟩
  | table o => exact ⟨_, ⟨h.clock w.steps, rfl⟩, leads_of_event _ rfl rfl rfl⟩
  | deliver req o =>
      refine ⟨_, ⟨h.clock w.steps, (o.apply pf.caseFold (h.clock w.steps) w.resolver).1, rfl⟩, ?_⟩
      exact (leads_of_event (.drain (h.clock w.steps) o _) rfl rfl rfl).append
        (foldl_forget_leads h req _ _)
  | openState o => exact ⟨[], rfl, leads_nil rfl rfl⟩
  | fillFindData data => exact ⟨_, rfl, leads_of_event _ rfl trivial rfl⟩
  | fillFindStreamData data => exact ⟨_, rfl, leads_of_event _ rfl trivial rfl⟩

variable (pf) in
/-- A routine's run leaves a trace of the routine in the log, legal for the resolver. -/
theorem run_leads {α : Type} (p : Routine α) (w : World β φ) :
    ∃ evs, p.Traces Emits evs (p.run (machine pf h notices) w).1 ∧
      w.Leads pf evs (p.run (machine pf h notices) w).2 ∧
      (notices = undisturbed → ∀ e ∈ evs, e.isNotify = false) := by
  refine Prog.traces_of_run (R := fun w evs w' => Leads pf w evs w' ∧
    (notices = undisturbed → ∀ e ∈ evs, e.isNotify = false)) (fun w => ⟨leads_nil rfl rfl, by simp⟩)
    (fun w w' w'' evs evs' hl hl' => ⟨hl.1.append hl'.1, fun hquiet e he => ?_⟩)
    (fun e w => ?_) p w
  · exact (List.mem_append.mp he).elim (hl.2 hquiet e) (hl'.2 hquiet e)
  · obtain ⟨notes, hnotes, hleads, hnil⟩ :=
      foldl_notify_leads pf h (notices w.steps) w
    obtain ⟨own, hown, hleads'⟩ := perform_leads pf h e
      ((notices w.steps).foldl (notify pf h) w)
    refine ⟨notes ++ own, ⟨notes, own, hnotes, hown, rfl⟩, ?_, ?_⟩
    · obtain ⟨hlog, hlegal, hresolver⟩ := hleads.append hleads'
      exact ⟨hlog, hlegal, hresolver⟩
    · rintro rfl e' he'
      rw [hnil rfl, List.nil_append] at he'
      exact hown.not_notify e' he'

variable (pf) in
/-- The events of a routine's run. -/
def newEvents {α : Type} (p : Routine α) (w : World β φ) : List Event :=
  (p.run (machine pf h notices) w).2.log.drop w.log.length

variable (pf) in
theorem newEvents_traces {α : Type} (p : Routine α) (w : World β φ) :
    p.Traces Emits (w.newEvents pf h notices p) (p.run (machine pf h notices) w).1 := by
  obtain ⟨evs, ht, hleads, -⟩ := run_leads pf h notices p w
  rwa [newEvents, hleads.log, List.drop_left]

variable (pf) in
theorem run_log {α : Type} (p : Routine α) (w : World β φ) :
    (p.run (machine pf h notices) w).2.log = w.log ++ w.newEvents pf h notices p := by
  obtain ⟨evs, -, hleads, -⟩ := run_leads pf h notices p w
  rw [newEvents, hleads.log, List.drop_left]

variable (pf) in
theorem newEvents_pure {α : Type} (a : α) (w : World β φ) :
    w.newEvents pf h notices (pure a : Routine α) = [] := List.drop_length

variable (pf) in
theorem newEvents_bind {α γ : Type} (p : Routine α) (f : α → Routine γ) (w : World β φ) :
    w.newEvents pf h notices (p >>= f) = w.newEvents pf h notices p ++
      (p.run (machine pf h notices) w).2.newEvents pf h notices
        (f (p.run (machine pf h notices) w).1) := by
  have hlog := run_log pf h notices (p >>= f) w
  rw [Prog.run_bind, run_log, run_log, List.append_assoc] at hlog
  exact (List.append_cancel_left hlog).symm

variable (pf) in
theorem machine_answered (e : Effect) (w : World β φ) :
    ∃ evs, (machine pf h notices e w).2.log = w.log ++ evs ∧ ∀ ev ∈ evs, ev.AnsweredBy h := by
  obtain ⟨notes, hnotes, hbefore, -⟩ := foldl_notify_leads pf h (notices w.steps) w
  set w' := (notices w.steps).foldl (notify pf h) w with hw'
  obtain ⟨own, hown, hafter⟩ := perform_leads pf h e w'
  refine ⟨notes ++ own, (hbefore.append hafter).log, fun ev hev => ?_⟩
  rcases List.mem_append.mp hev with hev | hev
  · have hnote := hnotes ev hev
    cases ev <;> trivial
  cases e with
  | fs c =>
      rw [show own = [.call c (h.reply c w'.backend).1] from hown, List.mem_singleton] at hev
      subst hev
      exact ⟨w'.backend, rfl⟩
  | table o =>
      obtain ⟨now, rfl⟩ := hown
      rw [List.mem_singleton.mp hev]
      trivial
  | deliver req o =>
      obtain ⟨now, forgets, rfl⟩ := hown
      rcases List.mem_cons.mp hev with rfl | hev
      · trivial
      · obtain ⟨f, -, rfl⟩ := List.mem_map.mp hev
        trivial
  | openState o => simp [show own = [] from hown] at hev
  | fillFindData data =>
      rw [show own = [.fillFindData data (h.fillFindData data w'.caller).1] from hown,
        List.mem_singleton] at hev
      subst hev
      exact ⟨w'.caller, rfl⟩
  | fillFindStreamData data =>
      rw [show own = [.fillFindStreamData data (h.fillFindStreamData data w'.caller).1] from hown,
        List.mem_singleton] at hev
      subst hev
      exact ⟨w'.caller, rfl⟩

variable (pf) in
/-- Every answer in the log is one of the host's. -/
theorem newEvents_answered {α : Type} (p : Routine α) (w : World β φ) :
    ∀ ev ∈ w.newEvents pf h notices p, ev.AnsweredBy h := by
  have hrun : ∃ evs, (p.run (machine pf h notices) w).2.log = w.log ++ evs ∧
      ∀ ev ∈ evs, ev.AnsweredBy h := by
    induction p generalizing w with
    | pure a => exact ⟨[], (List.append_nil _).symm, by simp⟩
    | op e next ih =>
        obtain ⟨evs, hlog, hevs⟩ := machine_answered pf h notices e w
        obtain ⟨rest, hlog', hrest⟩ := ih _ (machine pf h notices e w).2
        refine ⟨evs ++ rest, ?_, fun ev hev => ?_⟩
        · rw [Prog.run_op, hlog', hlog, List.append_assoc]
        · exact (List.mem_append.mp hev).elim (hevs ev) (hrest ev)
  obtain ⟨evs, hlog, hevs⟩ := hrun
  rwa [newEvents, hlog, List.drop_left]

variable (pf) in
/-- Every reply in the log is one of the host's. -/
theorem newEvents_replied {α : Type} (p : Routine α) (w : World β φ) {c : FsCall} {reply : c.Reply}
    (hc : .call c reply ∈ w.newEvents pf h notices p) : ∃ b, reply = (h.reply c b).1 :=
  newEvents_answered pf h notices p w _ hc

/-- A run of callbacks, each of whose traces satisfies a property that joins. -/
theorem serve_leads {P : List Event → Prop} (hP : Prog.Joins P)
    (hcallback : ∀ c : Callback, (c.routine pf).EveryTrace Emits P) (callbacks : List Callback)
    (w : World β φ) : ∃ evs, P evs ∧ w.Leads pf evs (w.serve pf h notices callbacks) := by
  induction callbacks generalizing w with
  | nil => exact ⟨[], hP.nil, leads_nil rfl rfl⟩
  | cons c callbacks ih =>
      obtain ⟨evs, ht, hl, -⟩ := run_leads pf h notices
        (c.routine pf) w
      obtain ⟨rest, hrest, hl'⟩ := ih ((c.routine pf).run (machine pf h notices) w).2
      exact ⟨evs ++ rest, hP.append (hcallback c evs _ ht) hrest, hl.append hl'⟩

/-! ## The backend along a run -/

variable (pf) in
variable {h} in
theorem foldl_notify_backend (ns : List NotifierCall) (w : World β φ) :
    (ns.foldl (notify pf h) w).backend = w.backend := by
  induction ns generalizing w with
  | nil => rfl
  | cons n ns ih => exact ih (w.notify pf h n)

variable (pf) in
/-- A call is answered from the backend's state. -/
theorem machine_fs_reply (c : FsCall) (w : World β φ) :
    (machine pf h notices (.fs c) w).1 = (h.reply c w.backend).1 :=
  congrArg (fun b => (h.reply c b).1) (foldl_notify_backend pf (notices w.steps) w)

variable (pf) in
theorem run_fs_bind {α : Type} (c : FsCall) (f : c.Reply → Routine α) (w : World β φ) :
    ∃ w' : World β φ, w'.backend = (h.reply c w.backend).2 ∧
      (Routine.fs c >>= f).run (machine pf h notices) w
        = (f (h.reply c w.backend).1).run (machine pf h notices) w' := by
  have hbackend := foldl_notify_backend pf (h := h) (notices w.steps) w
  refine ⟨((machine pf h notices) (.fs c) w).2, congrArg (fun b => (h.reply c b).2) hbackend, ?_⟩
  rw [← machine_fs_reply pf h notices c w]
  rfl

variable (pf) in
variable {h} in
/-- An invariant of the backend under the calls and forgets that a routine performs. -/
theorem run_backend {I : β → Prop} {ok : FsCall → Prop}
    (hreply : ∀ c b, ok c → I b → I (h.reply c b).2)
    (hforget : ∀ req ino n b, I b → I (h.forget req ino n b)) {α : Type} {p : Routine α}
    (hp : p.Performs fun e : Effect => ∀ c, e = .fs c → ok c) {w : World β φ} (hw : I w.backend) :
    I (p.run (machine pf h notices) w).2.backend := by
  refine hp.invariant (I := fun w : World β φ => I w.backend) (fun e w he hw => ?_) hw
  have hbefore : I ((notices w.steps).foldl (notify pf h) w).backend := by
    rwa [foldl_notify_backend]
  cases e with
  | fs c => exact hreply c _ (he c rfl) hbefore
  | deliver req o =>
      have hforgets : ∀ (forgets : Forgets) (w : World β φ), I w.backend →
          I (forgets.foldl (World.forget h req) w).backend := by
        intro forgets
        induction forgets with
        | nil => exact fun w hw => hw
        | cons f forgets ih => exact fun w hw => ih _ (hforget req f.1 f.2 _ hw)
      exact hforgets _ _ hbefore
  | table o => exact hbefore
  | openState o => exact hbefore
  | fillFindData data => exact hbefore
  | fillFindStreamData data => exact hbefore

end World

/-! ## Hosts for concrete runs -/

/-- ASCII case folding, and patterns that every name matches. -/
def Platform.ascii : Platform where
  caseFold := CharFold.ascii.toCaseFold
  isNameInExpression _ _ _ := true

/-- A host without a state, whose clock stands still and whose caller accepts every entry. -/
def Host.stateless (answer : (c : FsCall) → c.Reply) : Host Unit Unit where
  reply c b := (answer c, b)
  forget _ _ _ b := b
  clock _ := 0
  fillFindData _ b := (true, b)
  fillFindStreamData _ b := (true, b)

/-- A backend whose every lookup finds the file with inode 5, valid for `ttl`. -/
def oneFile (ttl : Duration) : (c : FsCall) → c.Reply
  | .lookup .. => some (.ok (⟨.plain ⟨5⟩ .regularFile, ttl, ⟨1⟩⟩ : ReplyEntryPayload))
  | .open .. => some (.ok (⟨⟨7⟩, ⟨0⟩⟩ : ReplyOpenPayload))
  | c => c.unanswered

def fileF : U16CStr := ⟨[92, 102], by simp⟩

def rootPath : U16CStr := ⟨[92], by simp⟩

/-- The handle of a directory with inode 5. -/
def directoryF : AdapterContext := { ino := ⟨5⟩, isDir := true }

/-- The adapter after mounting, with negative entries kept for a second. -/
def World.mounted : World Unit Unit := .initial (.fromSecs 1) () ()

end Confuse
