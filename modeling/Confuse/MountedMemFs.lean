import Confuse.AskedCalls
import Confuse.LockExclusion
import Confuse.MemFsContents

/-!
# The file system in memory under the adapter

The adapter asks the file system in memory one call after the other, so what holds of runs of calls
holds of runs of callbacks. An end of file that a callback sets always fits into a `Vec`; a write can
end behind it.
-/

namespace Confuse

open Interaction

/-! ## The sizes that callbacks ask for -/

def FsCall.isWrite : FsCall → Bool
  | .write .. => true
  | _ => false

def FsCall.isRename : FsCall → Bool
  | .rename .. => true
  | _ => false

def Callback.isMove : Callback → Bool
  | .moveFile .. => true
  | _ => false

theorem accessMaskToOpenFlags_noPassthrough (desiredAccess : AccessMask) :
    (fopenFlags (accessMaskToOpenFlags desiredAccess).toUInt32).passthrough = false := by
  unfold accessMaskToOpenFlags
  dsimp only
  split <;> rfl

/-- The call is a write or does not panic. -/
def FsCall.fits (c : FsCall) : Bool := c.isWrite || !c.panics

namespace MadeOf
variable (pf : Platform)

theorem setattrRoute_fits (fileName : U16CStr) (context : AdapterContext)
    {args : Except NtStatus SetattrArgs} (hargs : ∀ a, args = .ok a → INode.oversized a = false) :
    MadeOf pf FsCall.fits (Confuse.setattrRoute pf fileName context args) := by
  refine withResolved pf _ fun resolved => ?_
  cases args with
  | error status => exact .pure _
  | ok a =>
      have hfits : (FsCall.setattr (requestFromIds context.requestIds) resolved.ino a).fits = true := by
        rw [FsCall.fits, FsCall.panics, hargs a rfl]
        rfl
      exact .bind (fs pf hfits) fun _ => .bind (drainResolverForgets pf _) fun _ => onReply pf fun _ =>
        .bind (finishMetadataMutation pf _ fileName resolved.ino) fun _ => .pure _

/-- A nonnegative 64-bit offset is a size that a `Vec` can have. -/
theorem setEndOfFile_fits (fileName : U16CStr) (offset : Int64) (context : AdapterContext) :
    MadeOf pf FsCall.fits (Confuse.setEndOfFile pf fileName offset context) := by
  refine setattrRoute_fits pf fileName context fun a ha => ?_
  by_cases hoffset : offset < 0
  · rw [nonnegativeI64ToU64_error hoffset] at ha
    cases ha
  · rw [nonnegativeI64ToU64_ok hoffset] at ha
    cases ha
    have hsize := toNat_toUInt64 hoffset
    have hmax := Int64.toInt_lt offset
    have hle : offset.toUInt64.toNat ≤ isizeMax := by
      unfold isizeMax
      omega
    rw [INode.oversized, Option.any_some]
    exact decide_eq_false (Nat.not_lt.mpr hle)

end MadeOf

theorem FsCall.fits_of_isWalk {c : FsCall} (h : (Effect.fs c).isWalk) : c.fits = true := by
  cases c <;> first | rfl | cases h

/-- Only a write can panic: the adapter asks for no passthrough. -/
theorem Callback.performs_fits (pf : Platform) (c : Callback) :
    (c.routine pf).Performs fun e : Effect => ∀ call, e = .fs call → call.fits = true := by
  have hmadeOf : MadeOf pf FsCall.fits (c.routine pf) →
      (c.routine pf).Performs fun e : Effect => ∀ call, e = .fs call → call.fits = true := by
    intro hp
    refine (Calls.of_madeOf hp).mono ?_
    rintro e (he | he) call rfl
    · exact FsCall.fits_of_isWalk he
    · exact he call rfl
  cases c with
  | setEndOfFile fileName offset context => exact hmadeOf (.setEndOfFile_fits pf fileName offset context)
  | setFileAttributes fileName fileAttributes context =>
      exact hmadeOf (.setattrRoute_fits pf fileName context fun a ha => by cases ha; rfl)
  | setFileTime fileName creationTime lastAccessTime lastWriteTime context =>
      exact hmadeOf (.setattrRoute_fits pf fileName context fun a ha => by cases ha; rfl)
  | createFile fileName desiredAccess fileAttributes createDisposition createOptions requestIds =>
      have hflags := accessMaskToOpenFlags_noPassthrough desiredAccess
      refine performs_of_mayCall (fun call => FsCall.fits_of_isWalk) fun call hcall => ?_
      cases call with
      | «open» req ino flags =>
          obtain rfl : flags = ⟨accessMaskToOpenFlags desiredAccess⟩ := of_decide_eq_true hcall
          rw [FsCall.fits, FsCall.panics, hflags]
          rfl
      | opendir req ino flags =>
          obtain rfl : flags = ⟨accessMaskToOpenFlags desiredAccess⟩ := of_decide_eq_true hcall
          rw [FsCall.fits, FsCall.panics, hflags]
          rfl
      | create req parent name mode umask flags =>
          obtain ⟨-, hcreate⟩ := (Bool.and_eq_true _ _).mp hcall
          obtain rfl : flags = accessMaskToOpenFlags desiredAccess := of_decide_eq_true hcreate
          rw [FsCall.fits, FsCall.panics, hflags]
          rfl
      | _ => first | rfl | cases hcall
  | _ =>
      refine performs_of_mayCall (fun call => FsCall.fits_of_isWalk) fun call hcall => ?_
      cases call <;> first | rfl | cases hcall

/-! ## A read through an open handle -/

theorem checkedDokanLen_ok {len : ℕ} (hlen : len < 2 ^ 32) :
    checkedDokanLen len = .ok (.ofNat len) := if_pos hlen

/-- A read through an open handle hands on what the file system answers. -/
theorem World.run_readFile {β φ : Type} {pf : Platform} {h : Host β φ} {notices : Notices}
    {w : World β φ} {context : AdapterContext} (hino : context.ino ≠ ⟨0⟩) (fileName : U16CStr)
    {offset : Int64} (hoffset : ¬ offset < 0) {len : ℕ} (hlen : len < 2 ^ 32) {bytes : List UInt8}
    (hreply : (h.reply (.read (requestFromIds context.requestIds) context.ino context.fh
      offset.toUInt64 (.ofNat len) (openFlagsFromFopenFlags context.flags)
      (lockOwnerFromContext context)) w.backend).1 = (some (.ok bytes) : Reply (List UInt8)))
    (hbytes : bytes.length ≤ len) :
    ((readFile pf fileName offset len context).run (machine pf h notices) w).1
      = .ok ⟨.ofNat bytes.length, bytes⟩ := by
  unfold readFile
  rw [withResolved_of_open hino, nonnegativeI64ToU64_ok hoffset, checkedDokanLen_ok hlen]
  obtain ⟨w', -, hrun⟩ := World.run_fs_bind pf h notices (.read (requestFromIds context.requestIds)
    context.ino context.fh offset.toUInt64 (.ofNat len) (openFlagsFromFopenFlags context.flags)
    (lockOwnerFromContext context))
    (fun data : Reply (List UInt8) =>
      drainResolverForgets (requestFromIds context.requestIds) >>= fun _ =>
        onReply data errnoToNtstatus fun data => pure ((checkedDokanLen (min data.length len)).map
          fun count => (⟨count, data.take (min data.length len)⟩ : ReadResult))) w
  refine (congrArg Prod.fst hrun).trans ?_
  rw [hreply]
  change (checkedDokanLen (min bytes.length len)).map _ = _
  rw [Nat.min_eq_left hbytes, checkedDokanLen_ok (Nat.lt_of_le_of_lt hbytes hlen), List.take_length]
  rfl

/-! ## Mounts -/

/-- The file system in memory with the surroundings of `h`. It leaves `forget` to the trait, which
does nothing. -/
def Host.memFs {φ : Type} (clock : ℕ → SystemTime) (h : Host Unit φ) :
    Host (MemFs × (MemFsLock → Bool)) φ where
  reply c b := (MemFsCall.fs c).program.run (Prog.Machine.alone (MemFs.machine clock)) b
  forget _ _ _ b := b
  clock := h.clock
  fillFindData := h.fillFindData
  fillFindStreamData := h.fillFindStreamData

/-- An empty file system in memory is mounted, and callbacks are served. -/
structure Mount (φ : Type) where
  pf : Platform
  surroundings : Host Unit φ
  notices : Notices
  clock : ℕ → SystemTime
  now : SystemTime
  negativeTtl : Duration
  caller : φ
  callbacks : List Callback

namespace Mount
open MemFs
variable {φ : Type} (m : Mount φ)

def host : Host (MemFs × (MemFsLock → Bool)) φ := m.surroundings.memFs m.clock

def world : World (MemFs × (MemFsLock → Bool)) φ :=
  (World.initial m.negativeTtl (calm (new m.now)) m.caller).serve m.pf m.host m.notices m.callbacks

def calls : List MemFsCall := m.world.asked.map .fs

/-- No number is given out twice, and no write ends behind what a `Vec` can hold. -/
structure Fits : Prop where
  few : m.world.asked.length + 2 < 2 ^ 64
  writes : ∀ c ∈ m.world.asked, c.isWrite = true → c.panics = false

variable {m} in
theorem Fits.of_all (hfew : m.world.asked.length + 2 < 2 ^ 64)
    (hall : m.world.asked.all (fun c => !(c.isWrite && c.panics)) = true) : m.Fits where
  few := hfew
  writes := by
    intro c hc hwrite
    have hfits := List.all_eq_true.mp hall c hc
    rwa [hwrite, Bool.true_and, Bool.not_eq_true'] at hfits

theorem backend_eq : m.world.backend = served m.clock m.calls (calm (new m.now)) := by
  have hstart : (World.initial m.negativeTtl (calm (new m.now)) m.caller).Followed m.host
      (calm (new m.now)) := rfl
  have hfollowed := hstart.serve m.pf m.notices (fun _ _ _ _ => rfl) m.callbacks
  refine Eq.trans hfollowed ?_
  rw [served, calls, List.foldl_map]
  rfl

variable {m}

theorem every_asked {P : FsCall → Prop} (hcalls : ∀ c ∈ m.callbacks,
    (c.routine m.pf).Performs fun e : Effect => ∀ call, e = .fs call → P call) :
    ∀ call ∈ m.world.asked, P call :=
  World.serve_asked m.host m.notices hcalls (by simp [World.asked, World.initial])

theorem Fits.sizes (h : m.Fits) : ∀ c ∈ m.calls, c.panics = false := by
  have hfits : ∀ c ∈ m.world.asked, c.fits = true := every_asked fun c _ => c.performs_fits m.pf
  intro c hc
  obtain ⟨call, hcall, rfl⟩ := List.mem_map.mp hc
  cases hwrite : call.isWrite with
  | true => exact h.writes call hcall hwrite
  | false =>
      have hfit := hfits call hcall
      rwa [FsCall.fits, hwrite, Bool.false_or, Bool.not_eq_true'] at hfit

theorem Fits.asked_sizes (h : m.Fits) : ∀ c ∈ m.world.asked, c.panics = false := by
  intro c hc
  exact h.sizes (.fs c) (List.mem_map_of_mem hc)

/-- Between the callbacks no mutex is poisoned. -/
theorem Fits.settled (h : m.Fits) : ∃ s, m.world.backend = calm s ∧
    Settled 0 (orphans m.clock m.calls (calm (new m.now))) s := by
  rw [m.backend_eq]
  apply runs_settled m.clock m.now h.sizes
  rw [calls, List.length_map]
  exact h.few

variable (m) in
theorem reply_calm {c : FsCall} (hc : c.panics = false) (s : MemFs) :
    m.host.reply c (calm s) = ((MemFsCall.fs c).answer m.clock s, calm ((MemFsCall.fs c).effect m.clock s)) :=
  MemFsCall.run_program (c := .fs c) hc

/-! ## What the callbacks leave -/

theorem orphans_of_noRename {calls : List FsCall} (hcalls : ∀ c ∈ calls, c.isRename = false)
    (clock : ℕ → SystemTime) (b : MemFs × (MemFsLock → Bool)) :
    orphans clock (calls.map .fs) b = 0 := by
  induction calls generalizing b with
  | nil => rfl
  | cons c calls ih =>
      rw [List.forall_mem_cons] at hcalls
      have hnow : MemFsCall.orphaned b.1 (.fs c) = 0 := by
        cases c <;> first | rfl | cases hcalls.1
      rw [List.map_cons, orphans, hnow, ih hcalls.2, add_zero]

theorem asked_noRename (hmoves : ∀ c ∈ m.callbacks, c.isMove = false) :
    ∀ c ∈ m.world.asked, c.isRename = false := by
  apply every_asked
  intro c hc
  apply Callback.performs_of_mayCall
  · intro call hcall
    cases call <;> first | rfl | cases hcall
  · intro call hcall
    cases call with
    | rename req parent name newparent newname flags =>
        have hmove := hmoves c hc
        cases c <;> first | (cases hmove; done) | cases hcall
    | _ => rfl

/-- After any callbacks no mutex is poisoned, and what is stored is the root, what has a name, and
what moves have replaced. Without moves nothing else is stored. -/
theorem mounted_is_accounted (h : m.Fits) :
    (∀ l, m.world.backend.2 l = false) ∧
      m.world.backend.1.inodes.keySet = ROOT_INO_RAW ::ₘ (m.world.backend.1.children.values
        + orphans m.clock m.calls (calm (new m.now))) ∧
      ((∀ c ∈ m.callbacks, c.isMove = false) →
        m.world.backend.1.inodes.keySet = ROOT_INO_RAW ::ₘ m.world.backend.1.children.values) := by
  obtain ⟨s, hs, hsettled⟩ := h.settled
  have hstored := hsettled.balanced
  rw [hs]
  refine ⟨fun _ => rfl, hstored, fun hmoves => ?_⟩
  have hnone : orphans m.clock m.calls (calm (new m.now)) = 0 :=
    orphans_of_noRename (asked_noRename hmoves) m.clock _
  rw [hnone, MemFs.Balanced, add_zero] at hstored
  exact hstored

/-- `ReadFile` returns what was last written to the file. -/
theorem mounted_reads_last_written (h : m.Fits) {context : AdapterContext}
    (hino : context.ino ≠ ⟨0⟩) {node : INode}
    (hnode : m.world.backend.1.inodes.lookup context.ino.raw = some node)
    (hkind : node.kind = .regularFile) (fileName : U16CStr) {offset : Int64} (hoffset : ¬ offset < 0)
    {len : ℕ} (hlen : len < 2 ^ 32) :
    ∃ bytes, (((Callback.readFile fileName offset len context).routine m.pf).run
        (Confuse.machine m.pf m.host m.notices) m.world).1
          = (.ok ⟨.ofNat bytes.length, bytes⟩ : Except NtStatus ReadResult) ∧
      ∀ k, bytes[k]? = if k < len then
        Contents.cell 0 (history m.clock context.ino.raw m.calls (calm (new m.now))).reverse
          (offset.toInt.toNat + k) else none := by
  have hsize : (UInt32.ofNat len).toNat = len := UInt32.toNat_ofNat_of_lt' hlen
  have hstart : offset.toUInt64.toNat = offset.toInt.toNat := by
    have hsame := toNat_toUInt64 hoffset
    omega
  have hread := runs_read m.clock m.now h.sizes (by rw [calls, List.length_map]; exact h.few)
    (m.backend_eq ▸ hnode) offset.toUInt64 (.ofNat len)
  rw [hsize, hstart] at hread
  refine ⟨node.read offset.toUInt64 (.ofNat len), ?_, hread⟩
  obtain ⟨s, hs, -⟩ := h.settled
  rw [hs] at hnode
  have hanswer : s.readAnswer context.ino.raw offset.toUInt64 (.ofNat len)
      = .ok (node.read offset.toUInt64 (.ofNat len)) := by
    rw [readAnswer, nodeAnswer, show s.inodes.lookup context.ino.raw = some node from hnode,
      Option.elim_some, if_pos hkind]
  apply World.run_readFile hino fileName hoffset hlen
  · rw [hs, reply_calm m rfl s]
    exact congrArg some hanswer
  · by_contra hlong
    have hbeyond := hread len
    rw [if_neg (Nat.lt_irrefl len)] at hbeyond
    exact hlong (List.getElem?_eq_none_iff.mp hbeyond)

end Mount

/-- A file is made and written to through its handle. -/
def writtenMount : Mount Unit where
  pf := .ascii
  surroundings := .stateless FsCall.unanswered
  notices := undisturbed
  clock := MemFs.stillClock
  now := .UNIX_EPOCH
  negativeTtl := .fromSecs 1
  caller := ()
  callbacks := [.createFile fileF 0 0 FILE_CREATE 0 (.unavailable 1),
    .writeFile fileF 1 [7, 8] false false { ino := ⟨2⟩ }]

theorem fits_writtenMount : writtenMount.Fits := .of_all (by
  rw [show writtenMount.world.asked.length = 2 from rfl]
  decide) rfl

theorem mounted_is_accounted_writtenMount :
    (∀ l, writtenMount.world.backend.2 l = false) ∧
      writtenMount.world.backend.1.inodes.keySet
        = ROOT_INO_RAW ::ₘ writtenMount.world.backend.1.children.values := by
  obtain ⟨hcalm, -, hnamed⟩ := Mount.mounted_is_accounted fits_writtenMount
  refine ⟨hcalm, hnamed ?_⟩
  intro c hc
  simp only [writtenMount, List.mem_cons, List.not_mem_nil, or_false] at hc
  rcases hc with rfl | rfl <;> rfl

theorem mounted_reads_last_written_writtenMount :
    ∃ bytes, (((Callback.readFile fileF 0 10 { ino := ⟨2⟩ }).routine .ascii).run
        (machine .ascii writtenMount.host undisturbed) writtenMount.world).1
          = (.ok ⟨.ofNat bytes.length, bytes⟩ : Except NtStatus ReadResult) ∧
      ∀ k, bytes[k]? = if k < 10 then
        Contents.cell 0 (MemFs.history MemFs.stillClock 2 writtenMount.calls
          (MemFs.calm (MemFs.new .UNIX_EPOCH))).reverse (0 + k) else none := by
  have hnode : writtenMount.world.backend.1.inodes.lookup 2
      = some { INode.newFile 2 1 (.new ['f']) 0o644 .UNIX_EPOCH with data := [0, 7, 8] } := rfl
  have hopen : ({ ino := ⟨2⟩ } : AdapterContext).ino ≠ ⟨0⟩ := by decide
  exact Mount.mounted_reads_last_written fits_writtenMount hopen hnode rfl fileF (by decide) (by decide)

end Confuse
