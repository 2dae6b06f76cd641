import Confuse.HandleLedger
import Confuse.LockingBackend

/-!
# Byte-range locks

The backend keeps a set of locked bytes for each inode and lock owner. Every context that
`create_file` returns is without a lock owner, so all handles lock as owner 0 and the backend sees no
conflict between them: it grants every request. Two handles are kept apart exactly when their callers
never ask for bytes that another handle has.
-/

namespace Confuse

open Interaction

/-! ## The effects of `create_file` -/

/-- The effects of `create_file`: path walks, the calls that open or create, and bookkeeping. -/
def Effect.isCreation : Effect → Bool
  | .fs (.lookup ..) | .fs (.open ..) | .fs (.opendir ..) | .fs (.create ..) | .fs (.mkdir ..)
  | .table _ | .deliver _ _ | .openState _ => true
  | _ => false

abbrev CreationRoutine {α : Type} (p : Routine α) : Prop :=
  p.Performs fun e : Effect => e.isCreation

namespace CreationRoutine
variable {α γ : Type}

theorem pure (a : α) : CreationRoutine (Pure.pure a : Routine α) := Prog.Performs.pure a

theorem bind {p : Routine α} {f : α → Routine γ} (hp : CreationRoutine p)
    (hf : ∀ a, CreationRoutine (f a)) : CreationRoutine (p >>= f) := Prog.Performs.bind hp hf

theorem effect {e : Effect} (h : e.isCreation) :
    CreationRoutine (Prog.perform (S := effects) e) := Prog.Performs.perform h

theorem resolvePathIno (pf : Platform) (req : Request) (path : OsStr) :
    CreationRoutine (resolvePathIno pf req path) := by
  refine (Walks.resolvePathIno req pf path).mono fun e he => ?_
  cases e with
  | fs c => cases c <;> first | rfl | simp [Effect.isWalk] at he
  | fillFindData data => simp [Effect.isWalk] at he
  | fillFindStreamData data => simp [Effect.isWalk] at he
  | _ => rfl

theorem drainResolverForgets (req : Request) : CreationRoutine (drainResolverForgets req) :=
  effect rfl

theorem onOk {result : Except NtStatus γ} {f : γ → Routine (Except NtStatus α)}
    (hf : ∀ v, CreationRoutine (f v)) : CreationRoutine (onOk result f) :=
  onOk_cases (fun _ => pure _) hf

theorem onReply {reply : Reply γ} {toNtstatus : Errno → NtStatus}
    {f : γ → Routine (Except NtStatus α)} (hf : ∀ v, CreationRoutine (f v)) :
    CreationRoutine (onReply reply toNtstatus f) :=
  onReply_cases (fun _ => pure _) fun v _ => hf v

theorem finishCreatedEntry (created : CreatedEntry) :
    CreationRoutine (finishCreatedEntry created) :=
  bind (effect rfl) fun _ => bind (effect rfl) fun _ => bind (effect rfl) fun _ =>
    bind (effect rfl) fun _ => drainResolverForgets _

theorem openResolvedPath (request : OpenEntryRequest) (actualIno : INodeNo) :
    CreationRoutine (openResolvedPath request actualIno) := by
  refine bind ?_ fun opened => bind (drainResolverForgets _) fun _ => onReply fun payload =>
    bind (effect rfl) fun _ => pure _
  unfold openOrOpendir
  cases request.isDirOpen with
  | true => exact effect (e := .fs (.opendir request.req actualIno ⟨request.openFlags⟩)) rfl
  | false => exact effect (e := .fs (.open request.req actualIno ⟨request.openFlags⟩)) rfl

theorem openExistingEntry (pf : Platform) (request : OpenEntryRequest) :
    CreationRoutine (openExistingEntry pf request) := by
  refine bind ?_ fun _ => onOk fun _ => openResolvedPath request _
  unfold resolveOpenIno
  split_ifs
  · exact pure _
  · refine bind (resolvePathIno pf _ _) fun resolved => ?_
    cases resolved with
    | ok ino => exact pure _
    | error err => exact bind (drainResolverForgets _) fun _ => pure _

theorem openCollisionEntry (pf : Platform) (request : OpenEntryRequest) :
    CreationRoutine (openCollisionEntry pf request) := by
  unfold Confuse.openCollisionEntry
  split_ifs
  · exact bind (effect rfl) fun _ => openExistingEntry pf request
  · exact openExistingEntry pf request

theorem createDirectoryEntry (create : CreateEntryRequest) :
    CreationRoutine (createDirectoryEntry create) :=
  bind (effect rfl) fun _ => bind (drainResolverForgets _) fun _ => onReply fun _ =>
    bind (finishCreatedEntry _) fun _ => pure _

theorem createFileEntryOrOpenExisting (pf : Platform) (create : CreateEntryRequest)
    (plan : CreateDispositionPlan) (openFlags : Int32) :
    CreationRoutine (createFileEntryOrOpenExisting pf create plan openFlags) := by
  refine bind (effect rfl) fun state => bind (drainResolverForgets _) fun _ => ?_
  rcases state with _ | ⟨err⟩ | ⟨payload⟩
  · exact pure _
  · dsimp only
    split_ifs
    · exact openCollisionEntry pf _
    · exact pure _
  · exact bind (finishCreatedEntry _) fun _ => pure _

theorem createFile (pf : Platform) (fileName : U16CStr) (desiredAccess : AccessMask)
    (fileAttributes createDisposition createOptions : UInt32) (requestIds : RequestIds) :
    CreationRoutine (createFile pf fileName desiredAccess fileAttributes createDisposition
      createOptions requestIds) := by
  refine bind (resolvePathIno pf _ _) fun parent => ?_
  cases parent with
  | error err => exact bind (drainResolverForgets _) fun _ => pure _
  | ok parentIno =>
      dsimp only [createInParent]
      split_ifs
      · exact bind (effect rfl) fun _ => pure _
      · exact openExistingEntry pf _
      · exact createDirectoryEntry _
      · exact createFileEntryOrOpenExisting pf _ _ _

end CreationRoutine

/-! ## One owner -/

/-- Owner 0 has all the locks. -/
def OneOwner {β : Type} (locks : β → LockTable) (b : β) : Prop :=
  ∀ i o byte, locks b i o byte → o = ⟨0⟩

section OneOwner
variable {β φ : Type} {covers : Covers} {h : Host β φ} {locks : β → LockTable}

theorem OneOwner.not_conflicts {b : β} (hb : OneOwner locks b) (ino : INodeNo)
    (start «end» : UInt64) : ¬ (locks b).Conflicts covers ino ⟨0⟩ start «end» := by
  rintro ⟨other, byte, hother, hlock, -⟩
  exact hother (hb ino other byte hlock)

/-- The only lock calls of the adapter are write locks and unlocks as owner 0. -/
def FsCall.locksAsZero : FsCall → Prop
  | .setlk _ _ _ owner _ _ typ _ _ =>
      owner = ⟨0⟩ ∧ (typ = LOCK_TYPE_WRLCK ∨ typ = LOCK_TYPE_UNLCK)
  | _ => True

theorem OneOwner.reply (hlocks : LocksExactly covers h locks) {c : FsCall} (hc : c.locksAsZero) {b : β}
    (hb : OneOwner locks b) : OneOwner locks (h.reply c b).2 := by
  intro i o byte hlock
  by_cases hset : ∀ req ino fh owner start «end» typ pid sleep,
      c ≠ .setlk req ino fh owner start «end» typ pid sleep
  · exact hb i o byte (hlocks.others c b hset i o byte hlock)
  · push Not at hset
    obtain ⟨req, ino, fh, owner, start, «end», typ, pid, sleep, rfl⟩ := hset
    obtain ⟨rfl, rfl | rfl⟩ := hc
    · have hgranted := hlocks.granted req ino fh ⟨0⟩ start «end» pid sleep b
        (hb.not_conflicts ino start «end»)
      rcases (hgranted.2 i o byte).mp hlock with hold | ⟨-, rfl, -⟩
      · exact hb i o byte hold
      · rfl
    · have hunlocked := hlocks.unlocked req ino fh ⟨0⟩ start «end» pid sleep b
      exact hb i o byte ((hunlocked.2 i o byte).mp hlock).1

theorem OneOwner.forget (hlocks : LocksExactly covers h locks) (req : Request) (ino : INodeNo) (n : ℕ)
    {b : β} (hb : OneOwner locks b) : OneOwner locks (h.forget req ino n b) :=
  fun i o byte hlock => hb i o byte (hlocks.forget req ino n b i o byte hlock)

/-- Every lock call of the routine is made as owner 0. -/
abbrev ZeroRoutine {α : Type} (p : Routine α) : Prop :=
  p.Performs fun e : Effect => ∀ c, e = .fs c → c.locksAsZero

theorem OneOwner.run (hlocks : LocksExactly covers h locks) (pf : Platform) (notices : Notices) {α : Type}
    {p : Routine α} (hp : ZeroRoutine p) {w : World β φ} (hw : OneOwner locks w.backend) :
    OneOwner locks (p.run (machine pf h notices) w).2.backend :=
  World.run_backend pf notices (fun _ _ hc hb => hb.reply hlocks hc)
    (fun req ino n _ hb => hb.forget hlocks req ino n) hp hw

end OneOwner

namespace ZeroRoutine
variable {α γ : Type}

theorem pure (a : α) : ZeroRoutine (Pure.pure a : Routine α) := Prog.Performs.pure a

theorem bind {p : Routine α} {f : α → Routine γ} (hp : ZeroRoutine p)
    (hf : ∀ a, ZeroRoutine (f a)) : ZeroRoutine (p >>= f) := Prog.Performs.bind hp hf

theorem effect {e : Effect} (h : ∀ c, e = .fs c → c.locksAsZero) :
    ZeroRoutine (Prog.perform (S := effects) e) := Prog.Performs.perform h

theorem fs {c : FsCall} (h : c.locksAsZero) : ZeroRoutine (Routine.fs c) :=
  effect fun _ hc => Effect.fs.inj hc ▸ h

theorem of_creation {p : Routine α} (hp : CreationRoutine p) : ZeroRoutine p := by
  refine hp.mono fun e he c hc => ?_
  subst hc
  cases c <;> trivial

theorem drainResolverForgets (req : Request) : ZeroRoutine (drainResolverForgets req) :=
  of_creation (.drainResolverForgets req)

theorem openState (o : OpenStateOp) : ZeroRoutine (Routine.openState o) := effect (by simp)

theorem closeFile (fileName : U16CStr) (context : AdapterContext) :
    ZeroRoutine (closeFile fileName context) := by
  refine bind ?_ fun _ => bind (openState _) fun _ => openState _
  unfold closeWithContext
  split_ifs
  · exact bind (fs trivial) fun _ => pure _
  · exact bind (fs trivial) fun _ => pure _

theorem withResolved {pf : Platform} {req : Request} {path : U16CStr} {context : AdapterContext}
    {f : AdapterContext → Routine (Except NtStatus α)} (hcontext : context.lockOwner = none)
    (hf : ∀ ctx, ctx.lockOwner = none → ZeroRoutine (f ctx)) :
    ZeroRoutine (withResolved pf req path context f) := by
  unfold Confuse.withResolved resolveContextOrPath resolveCtx
  split_ifs
  · exact hf _ hcontext
  · exact hf _ rfl
  · dsimp only
    rw [Prog.bind_assoc]
    refine bind (of_creation (.resolvePathIno pf req _)) fun resolved => ?_
    cases resolved with
    | error err => exact pure _
    | ok ino => exact hf _ rfl

theorem onOk {result : Except NtStatus γ} {f : γ → Routine (Except NtStatus α)}
    (hf : ∀ v, ZeroRoutine (f v)) : ZeroRoutine (onOk result f) :=
  onOk_cases (fun _ => pure _) hf

theorem requestOwner_of_unowned {context : AdapterContext} (h : context.lockOwner = none) :
    requestOwner context = ⟨0⟩ := by simp [requestOwner, lockOwnerFromContext, h]

theorem setlkWithContext (req : Request) {resolved : AdapterContext}
    (hresolved : resolved.lockOwner = none) (start «end» : UInt64) {typ : Int32}
    (htyp : typ = LOCK_TYPE_WRLCK ∨ typ = LOCK_TYPE_UNLCK) :
    ZeroRoutine (setlkWithContext req resolved start «end» typ) := by
  refine bind (fs ⟨requestOwner_of_unowned hresolved, htyp⟩) fun status =>
    bind (drainResolverForgets _) fun _ => ?_
  rcases status with _ | ⟨err⟩ | ⟨⟩ <;> exact pure _

theorem lockFile (pf : Platform) (fileName : U16CStr) (offset length : Int64)
    {context : AdapterContext} (hcontext : context.lockOwner = none) :
    ZeroRoutine (lockFile pf fileName offset length context) := by
  refine withResolved hcontext fun resolved hresolved => onOk fun (start, «end») =>
    bind (fs trivial) fun query => ?_
  rcases query with _ | ⟨err⟩ | ⟨lock⟩
  · exact setlkWithContext _ hresolved _ _ (.inl rfl)
  · exact pure _
  · dsimp only
    split_ifs
    · exact pure _
    · exact setlkWithContext _ hresolved _ _ (.inl rfl)

theorem unlockFile (pf : Platform) (fileName : U16CStr) (offset length : Int64)
    {context : AdapterContext} (hcontext : context.lockOwner = none) :
    ZeroRoutine (unlockFile pf fileName offset length context) :=
  withResolved hcontext fun _ hresolved => onOk fun _ =>
    setlkWithContext _ hresolved _ _ (.inr rfl)

end ZeroRoutine

/-! ## Every lock request is granted -/

section Granted
variable {β φ : Type} {pf : Platform} {h : Host β φ} {notices : Notices} {covers : Covers}
  {locks : β → LockTable}

theorem withResolved_of_open {α : Type} {req : Request} {path : U16CStr} {context : AdapterContext}
    (hino : context.ino ≠ ⟨0⟩) (f : AdapterContext → Routine (Except NtStatus α)) :
    withResolved pf req path context f = f context := by
  unfold withResolved resolveContextOrPath resolveCtx
  rw [if_pos hino]
  rfl

theorem setlkWithContext_granted (hlocks : LocksExactly covers h locks) (req : Request)
    {context : AdapterContext} (howner : context.lockOwner = none) (start «end» : UInt64)
    {w : World β φ} (hw : OneOwner locks w.backend) :
    ((setlkWithContext req context start «end» LOCK_TYPE_WRLCK).run
      (machine pf h notices) w).1 = .ok () := by
  obtain ⟨w', -, hrun⟩ := World.run_fs_bind pf h notices (.setlk req
    context.ino context.fh (requestOwner context) start «end» LOCK_TYPE_WRLCK req.pid false)
    (fun status => drainResolverForgets req >>= fun _ => onReply status probeNtstatus
      fun _ => pure (.ok ())) w
  refine (congrArg Prod.fst hrun).trans ?_
  rw [ZeroRoutine.requestOwner_of_unowned howner, (hlocks.granted req context.ino context.fh ⟨0⟩
    start «end» req.pid false w.backend (hw.not_conflicts context.ino start «end»)).1]
  rfl

variable (pf notices) in
/-- On an open handle an accepted range is always granted. -/
theorem lockFile_granted (hlocks : LocksExactly covers h locks) (fileName : U16CStr)
    {context : AdapterContext} (hino : context.ino ≠ ⟨0⟩) (howner : context.lockOwner = none)
    {offset length : Int64} {range : UInt64 × UInt64}
    (hrange : checkedLockRange offset length = .ok range) {w : World β φ}
    (hw : OneOwner locks w.backend) :
    ((lockFile pf fileName offset length context).run (machine pf h notices) w).1 = .ok () := by
  obtain ⟨start, «end»⟩ := range
  unfold lockFile
  rw [withResolved_of_open hino, hrange]
  obtain ⟨lock, hreply, htyp⟩ := hlocks.getlk (requestFromIds context.requestIds) context.ino
    context.fh ⟨0⟩ start «end» (requestFromIds context.requestIds).pid w.backend
  obtain ⟨w', hbackend, hrun⟩ := World.run_fs_bind pf h notices
    (.getlk (requestFromIds context.requestIds) context.ino context.fh (requestOwner context) start
      «end» LOCK_TYPE_WRLCK (requestFromIds context.requestIds).pid) _ w
  refine (congrArg Prod.fst hrun).trans ?_
  rw [ZeroRoutine.requestOwner_of_unowned howner] at hbackend ⊢
  rw [hreply]
  dsimp only
  rw [if_neg (not_not.mpr (htyp.mpr (hw.not_conflicts context.ino start «end»)))]
  refine setlkWithContext_granted hlocks _ howner start «end» ?_
  rw [hbackend]
  exact hw.reply hlocks (c := .getlk ..) trivial

/-- Outside the accepted ranges nothing is granted. -/
theorem lockFile_refused {fileName : U16CStr} {context : AdapterContext} (hino : context.ino ≠ ⟨0⟩)
    {offset length : Int64} {status : NtStatus}
    (hrange : checkedLockRange offset length = .error status) (w : World β φ) :
    ((lockFile pf fileName offset length context).run (machine pf h notices) w).1
      = .error status := by
  unfold lockFile
  rw [withResolved_of_open hino, hrange]
  rfl

end Granted

/-! ## Sessions -/

namespace Session
variable {β φ : Type}

/-- No two open handles of one inode have been granted a common byte. -/
def Exclusive (s : Session β φ) : Prop :=
  ∀ n n' handle handle', n ≠ n' → s.handles.lookup n = some handle →
    s.handles.lookup n' = some handle' → handle.context.ino = handle'.context.ino →
      handle.context.ino ≠ ⟨0⟩ → ∀ byte, ¬ (s.granted n byte ∧ s.granted n' byte)

/-- A lock request with an accepted range asks for no byte that another handle of the inode has. -/
def Disjoint (s : Session β φ) : SessionStep → Prop
  | .lockFile n _ offset length => ∀ n' handle handle' range, n ≠ n' →
      s.handles.lookup n = some handle → s.handles.lookup n' = some handle' →
        handle.context.ino = handle'.context.ino → handle.context.ino ≠ ⟨0⟩ →
          checkedLockRange offset length = .ok range →
            ∀ byte, inRange offset length byte → s.granted n' byte = false
  | _ => True

/-- Handles have no lock owner, so the backend knows owner 0 only. -/
structure Ownerless (locks : β → LockTable) (s : Session β φ) : Prop where
  oneOwner : OneOwner locks s.world.backend
  unowned : ∀ n handle, s.handles.lookup n = some handle →
    n < s.next ∧ handle.context.lockOwner = none
  fresh : ∀ n byte, s.granted n byte → n < s.next

variable {pf : Platform} {h : Host β φ} {notices : Notices} {covers : Covers} {locks : β → LockTable}
  {s : Session β φ}

theorem setRange_self {n : ℕ} {offset length : Int64} {value : Bool} {granted : ℕ → ℕ → Bool}
    {byte : ℕ} (hbyte : inRange offset length byte) :
    setRange n offset length value granted n byte = value := if_pos ⟨rfl, hbyte⟩

theorem setRange_other {n n' : ℕ} (hn : n' ≠ n) (offset length : Int64) (value : Bool)
    (granted : ℕ → ℕ → Bool) (byte : ℕ) :
    setRange n offset length value granted n' byte = granted n' byte :=
  if_neg fun heq => hn heq.1

theorem setRange_false_le {n n' : ℕ} {offset length : Int64} {granted : ℕ → ℕ → Bool} {byte : ℕ}
    (hset : setRange n offset length false granted n' byte) : granted n' byte := by
  unfold setRange at hset
  split_ifs at hset
  exact hset

theorem Ownerless.step (hlocks : LocksExactly covers h locks) (hs : s.Ownerless locks)
    (st : SessionStep) : (s.step pf h notices st).Ownerless locks := by
  cases st with
  | createFile fileName desiredAccess fileAttributes createDisposition createOptions requestIds =>
      have hone := hs.oneOwner.run hlocks pf notices (.of_creation
        (.createFile pf fileName desiredAccess fileAttributes createDisposition createOptions
          requestIds))
      obtain ⟨evs, ht, -, -⟩ := World.run_leads pf h notices (createFile pf fileName
        desiredAccess fileAttributes createDisposition createOptions requestIds) s.world
      have hunowned := createFile_unowned pf _ _ _ _ _ _ evs _ ht
      dsimp only [Session.step]
      cases hserved : ((createFile pf fileName desiredAccess fileAttributes createDisposition
          createOptions requestIds).run (machine pf h notices) s.world).1 with
      | error err => exact ⟨hone, hs.unowned, hs.fresh⟩
      | ok info =>
          refine ⟨hone, fun n handle hlookup => ?_, fun n byte hbyte =>
            Nat.lt_succ_of_lt (hs.fresh n byte hbyte)⟩
          by_cases hn : n = s.next
          · subst hn
            rw [AList.lookup_insert] at hlookup
            obtain rfl := Option.some.inj hlookup
            exact ⟨Nat.lt_succ_self _, hunowned info hserved⟩
          · rw [AList.lookup_insert_ne hn] at hlookup
            obtain ⟨hlt, hnone⟩ := hs.unowned n handle hlookup
            exact ⟨Nat.lt_succ_of_lt hlt, hnone⟩
  | closeFile n fileName =>
      dsimp only [Session.step]
      cases hlookup : s.handles.lookup n with
      | none => exact hs
      | some handle =>
          refine ⟨hs.oneOwner.run hlocks pf notices (.closeFile _ _), fun k other hother => ?_, hs.fresh⟩
          by_cases hk : k = n
          · rw [hk, AList.lookup_erase] at hother
            exact absurd hother (by simp)
          · rw [AList.lookup_erase_ne hk] at hother
            exact hs.unowned k other hother
  | lockFile n fileName offset length =>
      dsimp only [Session.step]
      cases hlookup : s.handles.lookup n with
      | none => exact hs
      | some handle =>
          obtain ⟨hlt, hnone⟩ := hs.unowned n handle hlookup
          refine ⟨hs.oneOwner.run hlocks pf notices (.lockFile pf _ _ _ hnone), hs.unowned,
            fun k byte hbyte => ?_⟩
          by_cases hk : k = n
          · exact hk ▸ hlt
          · refine hs.fresh k byte ?_
            dsimp only at hbyte
            split_ifs at hbyte
            · rwa [setRange_other hk] at hbyte
            · exact hbyte
  | unlockFile n fileName offset length =>
      dsimp only [Session.step]
      cases hlookup : s.handles.lookup n with
      | none => exact hs
      | some handle =>
          obtain ⟨hlt, hnone⟩ := hs.unowned n handle hlookup
          refine ⟨hs.oneOwner.run hlocks pf notices (.unlockFile pf _ _ _ hnone), hs.unowned,
            fun k byte hbyte => hs.fresh k byte ?_⟩
          dsimp only at hbyte
          split_ifs at hbyte
          · exact setRange_false_le hbyte
          · exact hbyte

/-- A lock request that asks for no byte of another handle keeps them apart. -/
theorem Exclusive.step (hs : s.Exclusive) (hfresh : ∀ n byte, s.granted n byte → n < s.next)
    {st : SessionStep} (hdisjoint : s.Disjoint st) : (s.step pf h notices st).Exclusive := by
  cases st with
  | createFile fileName desiredAccess fileAttributes createDisposition createOptions requestIds =>
      dsimp only [Session.step]
      cases ((createFile pf fileName desiredAccess fileAttributes createDisposition createOptions
          requestIds).run (machine pf h notices) s.world).1 with
      | error err => exact hs
      | ok info =>
          rintro n n' handle handle' hne hn hn' hino hzero byte ⟨hbyte, hbyte'⟩
          have hlt := hfresh n byte hbyte
          have hlt' := hfresh n' byte hbyte'
          rw [AList.lookup_insert_ne hlt.ne] at hn
          rw [AList.lookup_insert_ne hlt'.ne] at hn'
          exact hs n n' handle handle' hne hn hn' hino hzero byte ⟨hbyte, hbyte'⟩
  | closeFile n fileName =>
      dsimp only [Session.step]
      cases s.handles.lookup n with
      | none => exact hs
      | some handle =>
          have hopen : ∀ k other, (s.handles.erase n).lookup k = some other →
              s.handles.lookup k = some other := fun k other hk => by
            by_cases hkn : k = n
            · rw [hkn, AList.lookup_erase] at hk
              exact absurd hk (by simp)
            · rwa [AList.lookup_erase_ne hkn] at hk
          exact fun k k' other other' hne hk hk' => hs k k' other other' hne (hopen k other hk)
            (hopen k' other' hk')
  | lockFile n fileName offset length =>
      dsimp only [Session.step]
      cases hlookup : s.handles.lookup n with
      | none => exact hs
      | some handle =>
          dsimp only
          by_cases hok : ((lockFile pf fileName offset length handle.context).run
              (machine pf h notices) s.world).1.isOk
          · rw [if_pos hok]
            have hkey : ∀ k other byte, k ≠ n → s.handles.lookup k = some other →
                handle.context.ino = other.context.ino → handle.context.ino ≠ ⟨0⟩ →
                  ¬ (setRange n offset length true s.granted n byte ∧ s.granted k byte) := by
              rintro k other byte hk hother hino hzero ⟨hbyte, hbyte'⟩
              by_cases hin : inRange offset length byte
              · cases hrange : checkedLockRange offset length with
                | error status =>
                    rw [lockFile_refused hzero hrange] at hok
                    simp [Except.isOk, Except.toBool] at hok
                | ok range =>
                    have hfree := hdisjoint k handle other range (Ne.symm hk) hlookup hother hino
                      hzero hrange byte hin
                    rw [hfree] at hbyte'
                    exact absurd hbyte' (by simp)
              · have hold : s.granted n byte := by
                  rwa [setRange, if_neg fun heq => hin heq.2] at hbyte
                exact hs n k handle other (Ne.symm hk) hlookup hother hino hzero byte ⟨hold, hbyte'⟩
            rintro k k' other other' hne hk hk' hino hzero byte ⟨hbyte, hbyte'⟩
            dsimp only at hk hk' hbyte hbyte'
            by_cases hkn : k = n
            · subst hkn
              obtain rfl : handle = other := Option.some.inj (hlookup.symm.trans hk)
              rw [setRange_other hne.symm] at hbyte'
              exact hkey k' other' byte hne.symm hk' hino hzero ⟨hbyte, hbyte'⟩
            · rw [setRange_other hkn] at hbyte
              by_cases hkn' : k' = n
              · subst hkn'
                obtain rfl : handle = other' := Option.some.inj (hlookup.symm.trans hk')
                exact hkey k other byte hne hk hino.symm (hino ▸ hzero) ⟨hbyte', hbyte⟩
              · rw [setRange_other hkn'] at hbyte'
                exact hs k k' other other' hne hk hk' hino hzero byte ⟨hbyte, hbyte'⟩
          · rw [if_neg hok]
            exact hs
  | unlockFile n fileName offset length =>
      dsimp only [Session.step]
      cases s.handles.lookup n with
      | none => exact hs
      | some handle =>
          rintro k k' other other' hne hk hk' hino hzero byte ⟨hbyte, hbyte'⟩
          refine hs k k' other other' hne hk hk' hino hzero byte ?_
          dsimp only at hbyte hbyte'
          split_ifs at hbyte hbyte'
          · exact ⟨setRange_false_le hbyte, setRange_false_le hbyte'⟩
          · exact ⟨hbyte, hbyte'⟩

theorem exclusive_initial (ttl : Duration) (backend : β) (caller : φ) :
    (initial ttl backend caller : Session β φ).Exclusive := fun _ _ _ _ _ hn =>
  absurd hn (by simp [initial])

theorem ownerless_initial {backend : β} (hnone : ∀ i o byte, ¬ locks backend i o byte)
    (ttl : Duration) (caller : φ) : (initial ttl backend caller : Session β φ).Ownerless locks where
  oneOwner i o byte hlock := absurd hlock (hnone i o byte)
  unowned n handle hn := absurd hn (by simp [initial])
  fresh n byte hbyte := absurd hbyte (by simp [initial])

variable (pf notices) in
/-- An accepted lock request of an open handle is granted in every session. -/
theorem Ownerless.lock_granted (hlocks : LocksExactly covers h locks) (hs : s.Ownerless locks) {n : ℕ}
    {handle : Handle} (hlookup : s.handles.lookup n = some handle)
    (hino : handle.context.ino ≠ ⟨0⟩) {offset length : Int64} {range : UInt64 × UInt64}
    (hrange : checkedLockRange offset length = .ok range) (fileName : U16CStr) :
    (s.step pf h notices (.lockFile n fileName offset length)).granted
      = setRange n offset length true s.granted := by
  have hserved := lockFile_granted pf notices hlocks fileName
    hino (hs.unowned n handle hlookup).2 hrange hs.oneOwner
  dsimp only [Session.step]
  rw [hlookup]
  dsimp only
  rw [hserved]
  rfl

/-- With a backend that implements locks exactly, whatever bytes it takes the ends of a request for,
open handles exclude each other in a session, up to a panic, exactly when no lock request asks for
bytes that another handle of the inode has. -/
theorem locks_exclude_iff (hlocks : LocksExactly covers h locks) {backend : β}
    (hnone : ∀ i o byte, ¬ locks backend i o byte) (ttl : Duration) (caller : φ)
    (steps : List SessionStep) :
    (∀ before, before <+: steps →
        Lasting pf h notices before (initial ttl backend caller : Session β φ) →
          ((initial ttl backend caller : Session β φ).run pf h notices before).Exclusive) ↔
      ∀ before st, before ++ [st] <+: steps →
        Lasting pf h notices (before ++ [st]) (initial ttl backend caller : Session β φ) →
          ((initial ttl backend caller : Session β φ).run pf h notices before).Disjoint st := by
  have hownerless : ∀ before : List SessionStep,
      ((initial ttl backend caller : Session β φ).run pf h notices before).Ownerless locks :=
    fun before => run_induction (C := fun _ _ => True) (ownerless_initial hnone ttl caller)
      (fun _ st hs _ => hs.step hlocks st) fun _ _ _ => trivial
  constructor
  · intro hexclusive before st hbefore hlasting
    cases st with
    | lockFile n fileName offset length =>
        intro n' handle handle' range hne hn hn' hino hzero hrange byte hin
        by_contra hfree
        have hafter := hexclusive _ hbefore hlasting
        rw [run_concat] at hafter
        have hgranted := (hownerless before).lock_granted pf notices hlocks hn
          hzero hrange fileName
        have hhandles : (Session.step pf h notices
            ((initial ttl backend caller : Session β φ).run pf h notices before)
            (.lockFile n fileName offset length)).handles
              = ((initial ttl backend caller : Session β φ).run pf h notices before).handles := by
          dsimp only [Session.step]
          rw [hn]
        refine hafter n n' handle handle' hne (hhandles ▸ hn) (hhandles ▸ hn') hino hzero byte ?_
        rw [hgranted, setRange_self hin, setRange_other hne.symm]
        exact ⟨rfl, Bool.not_eq_false _ ▸ hfree⟩
    | _ => trivial
  · intro hdisjoint before hbefore hlasting
    refine (run_induction (P := fun s => s.Exclusive ∧ s.Ownerless locks)
      ⟨exclusive_initial ttl backend caller, ownerless_initial hnone ttl caller⟩
      (fun s st hs hok => ⟨hs.1.step hs.2.fresh hok, hs.2.step hlocks st⟩)
      fun start st hstart => hdisjoint start st (hstart.trans hbefore) (hlasting.of_prefix hstart)).1

def lockTwice : List SessionStep :=
  [.createFile fileF GENERIC_READ 0 FILE_OPEN 0 (.unavailable 1),
    .createFile fileF GENERIC_READ 0 FILE_OPEN 0 (.unavailable 2),
    .lockFile 0 fileF 0 10, .lockFile 1 fileF 5 10]

theorem locks_exclude_iff_lockTwice :
    (∀ before, before <+: lockTwice →
        Lasting .ascii .locking undisturbed before
            (initial (.fromSecs 1) [] () : Session (List ByteLock) Unit) →
          ((initial (.fromSecs 1) [] () : Session (List ByteLock) Unit).run .ascii .locking undisturbed
            before).Exclusive) ↔
      ∀ before st, before ++ [st] <+: lockTwice →
        Lasting .ascii .locking undisturbed (before ++ [st])
            (initial (.fromSecs 1) [] () : Session (List ByteLock) Unit) →
          ((initial (.fromSecs 1) [] () : Session (List ByteLock) Unit).run .ascii .locking undisturbed
            before).Disjoint st :=
  locks_exclude_iff locking_exact (by simp [lockedBytes]) (.fromSecs 1) () lockTwice

theorem lasting_lockTwice : Lasting .ascii .locking undisturbed lockTwice
    (initial (.fromSecs 1) [] () : Session (List ByteLock) Unit) :=
  ⟨by decide, by decide, by decide, by decide, trivial⟩

/-- Both handles get the bytes from 5 to 9. -/
theorem two_handles_lock_one_byte :
    ¬ ∀ before, before <+: lockTwice →
      Lasting .ascii .locking undisturbed before
          (initial (.fromSecs 1) [] () : Session (List ByteLock) Unit) →
        ((initial (.fromSecs 1) [] () : Session (List ByteLock) Unit).run .ascii .locking undisturbed
          before).Exclusive := by
  intro hall
  exact hall lockTwice List.prefix_rfl lasting_lockTwice 0 1 _ _ (by decide) rfl rfl rfl (by decide) 5
    ⟨rfl, rfl⟩

end Session

end Confuse
