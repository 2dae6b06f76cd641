import Confuse.Callbacks

/-!
# Backends with byte-range locks

`LocksExactly` says that a backend implements write locks: the locked bytes of each inode and owner
change by `setlk` only, and a request conflicts with the locks of other owners. Which bytes the two
ends of a request stand for is up to the backend. A backend that keeps a list of locked intervals and
takes the end of a request with it, as FUSE does, is one.
-/

namespace Confuse

/-- The bytes that each lock owner has locked in each inode. -/
abbrev LockTable := INodeNo → LockOwner → ℕ → Prop

/-- The bytes between the two ends of a request. -/
abbrev Covers := UInt64 → UInt64 → ℕ → Prop

/-- The end of the request is its last byte. -/
def coversInclusive : Covers := fun start «end» byte => start.toNat ≤ byte ∧ byte ≤ «end».toNat

/-- Another owner has locked a byte of the range. -/
def LockTable.Conflicts (locks : LockTable) (covers : Covers) (ino : INodeNo) (owner : LockOwner)
    (start «end» : UInt64) : Prop :=
  ∃ other byte, other ≠ owner ∧ locks ino other byte ∧ covers start «end» byte

/-- The backend implements write locks: requests conflict with the locks of other owners only. No
other call adds a lock. -/
structure LocksExactly {β φ : Type} (covers : Covers) (h : Host β φ) (locks : β → LockTable) :
    Prop where
  getlk : ∀ req ino fh owner start «end» pid b, ∃ lock : ReplyLockPayload,
    (h.reply (.getlk req ino fh owner start «end» LOCK_TYPE_WRLCK pid) b).1 = some (.ok lock) ∧
      (lock.typ = LOCK_TYPE_UNLCK ↔ ¬ (locks b).Conflicts covers ino owner start «end»)
  granted : ∀ req ino fh owner start «end» pid sleep b,
    ¬ (locks b).Conflicts covers ino owner start «end» →
      let answer := h.reply (.setlk req ino fh owner start «end» LOCK_TYPE_WRLCK pid sleep) b
      answer.1 = some (.ok ()) ∧ ∀ i o byte, locks answer.2 i o byte ↔
        locks b i o byte ∨ (i = ino ∧ o = owner ∧ covers start «end» byte)
  refused : ∀ req ino fh owner start «end» pid sleep b,
    (locks b).Conflicts covers ino owner start «end» →
      let answer := h.reply (.setlk req ino fh owner start «end» LOCK_TYPE_WRLCK pid sleep) b
      answer.1 = some (.error EAGAIN) ∧ locks answer.2 = locks b
  unlocked : ∀ req ino fh owner start «end» pid sleep b,
    let answer := h.reply (.setlk req ino fh owner start «end» LOCK_TYPE_UNLCK pid sleep) b
    answer.1 = some (.ok ()) ∧ ∀ i o byte, locks answer.2 i o byte ↔
      locks b i o byte ∧ ¬ (i = ino ∧ o = owner ∧ covers start «end» byte)
  others : ∀ c b, (∀ req ino fh owner start «end» typ pid sleep,
      c ≠ .setlk req ino fh owner start «end» typ pid sleep) →
    ∀ i o byte, locks (h.reply c b).2 i o byte → locks b i o byte
  forget : ∀ req ino n b i o byte, locks (h.forget req ino n b) i o byte → locks b i o byte

/-! ## Intervals -/

/-- A locked interval of bytes. -/
structure ByteLock where
  ino : INodeNo
  owner : LockOwner
  start : ℕ
  stop : ℕ
  deriving DecidableEq

def ByteLock.conflicts (ino : INodeNo) (owner : LockOwner) (start stop : ℕ) (l : ByteLock) : Bool :=
  l.ino = ino ∧ l.owner ≠ owner ∧ max l.start start < min l.stop stop

/-- What an unlocked interval leaves of a lock. -/
def ByteLock.cut (ino : INodeNo) (owner : LockOwner) (start stop : ℕ) (l : ByteLock) :
    List ByteLock :=
  if l.ino = ino ∧ l.owner = owner then
    [{ l with stop := min l.stop start }, { l with start := max l.start stop }]
  else [l]

def setlkReply (ino : INodeNo) (owner : LockOwner) (start «end» : UInt64) (typ : Int32)
    (b : List ByteLock) : Reply Unit × List ByteLock :=
  if typ = LOCK_TYPE_UNLCK then
    (some (.ok ()), b.flatMap (ByteLock.cut ino owner start.toNat («end».toNat + 1)))
  else if b.any (ByteLock.conflicts ino owner start.toNat («end».toNat + 1)) then
    (some (.error EAGAIN), b)
  else (some (.ok ()), ⟨ino, owner, start.toNat, «end».toNat + 1⟩ :: b)

/-- A backend with locks that otherwise answers like `oneFile`. -/
def lockingReply : (c : FsCall) → List ByteLock → c.Reply × List ByteLock
  | .getlk _ ino _ owner start «end» _ _, b =>
      (some (.ok ⟨start, «end», if b.any (ByteLock.conflicts ino owner start.toNat («end».toNat + 1))
        then LOCK_TYPE_WRLCK else LOCK_TYPE_UNLCK, 0⟩), b)
  | .setlk _ ino _ owner start «end» typ _ _, b => setlkReply ino owner start «end» typ b
  | c, b => (oneFile (.fromSecs 10) c, b)

def Host.locking : Host (List ByteLock) Unit where
  reply := lockingReply
  forget _ _ _ b := b
  clock _ := 0
  fillFindData _ b := (true, b)
  fillFindStreamData _ b := (true, b)

def lockedBytes (b : List ByteLock) : LockTable := fun ino owner byte =>
  ∃ l ∈ b, l.ino = ino ∧ l.owner = owner ∧ l.start ≤ byte ∧ byte < l.stop

theorem any_conflicts_iff (b : List ByteLock) (ino : INodeNo) (owner : LockOwner)
    (start «end» : UInt64) : b.any (ByteLock.conflicts ino owner start.toNat («end».toNat + 1)) ↔
      (lockedBytes b).Conflicts coversInclusive ino owner start «end» := by
  rw [List.any_eq_true]
  constructor
  · rintro ⟨l, hl, hconflict⟩
    obtain ⟨hino, howner, hlt⟩ : l.ino = ino ∧ l.owner ≠ owner ∧
      max l.start start.toNat < min l.stop («end».toNat + 1) := by simpa [ByteLock.conflicts] using hconflict
    exact ⟨l.owner, max l.start start.toNat, howner, ⟨l, hl, hino, rfl, by omega, by omega⟩,
      by omega, by omega⟩
  · rintro ⟨other, byte, hother, ⟨l, hl, hino, rfl, hstart, hstop⟩, hlow, hhigh⟩
    refine ⟨l, hl, ?_⟩
    have hlt : max l.start start.toNat < min l.stop («end».toNat + 1) := by omega
    simpa [ByteLock.conflicts] using ⟨hino, hother, by omega⟩

theorem lockedBytes_cut (b : List ByteLock) (ino : INodeNo) (owner : LockOwner)
    (start stop : ℕ) (i : INodeNo) (o : LockOwner) (byte : ℕ) :
    lockedBytes (b.flatMap (ByteLock.cut ino owner start stop)) i o byte ↔
      lockedBytes b i o byte ∧ ¬ (i = ino ∧ o = owner ∧ start ≤ byte ∧ byte < stop) := by
  constructor
  · rintro ⟨piece, hpiece, rfl, rfl, hlow, hhigh⟩
    obtain ⟨l, hl, hcut⟩ := List.mem_flatMap.mp hpiece
    unfold ByteLock.cut at hcut
    split_ifs at hcut with howner
    · rcases List.mem_pair.mp hcut with rfl | rfl
      · dsimp only at hlow hhigh ⊢
        exact ⟨⟨l, hl, rfl, rfl, hlow, by omega⟩, by omega⟩
      · dsimp only at hlow hhigh ⊢
        exact ⟨⟨l, hl, rfl, rfl, by omega, hhigh⟩, by omega⟩
    · obtain rfl := List.mem_singleton.mp hcut
      exact ⟨⟨piece, hl, rfl, rfl, hlow, hhigh⟩, fun hin => howner ⟨hin.1, hin.2.1⟩⟩
  · rintro ⟨⟨l, hl, rfl, rfl, hlow, hhigh⟩, hout⟩
    by_cases howner : l.ino = ino ∧ l.owner = owner
    · have hpieces : ByteLock.cut ino owner start stop l
          = [{ l with stop := min l.stop start }, { l with start := max l.start stop }] :=
        if_pos howner
      have hside : byte < start ∨ stop ≤ byte := by
        by_contra hin
        exact hout ⟨howner.1, howner.2, by omega, by omega⟩
      rcases hside with hleft | hright
      · refine ⟨{ l with stop := min l.stop start }, List.mem_flatMap.mpr ⟨l, hl, ?_⟩, rfl, rfl,
          hlow, lt_min hhigh hleft⟩
        rw [hpieces]
        exact List.mem_cons_self
      · refine ⟨{ l with start := max l.start stop }, List.mem_flatMap.mpr ⟨l, hl, ?_⟩, rfl, rfl,
          max_le hlow hright, hhigh⟩
        rw [hpieces]
        exact List.mem_cons_of_mem _ List.mem_cons_self
    · refine ⟨l, List.mem_flatMap.mpr ⟨l, hl, ?_⟩, rfl, rfl, hlow, hhigh⟩
      rw [ByteLock.cut, if_neg howner]
      exact List.mem_cons_self

theorem write_ne_unlock : LOCK_TYPE_WRLCK ≠ LOCK_TYPE_UNLCK := by decide

theorem locking_exact : LocksExactly coversInclusive Host.locking lockedBytes where
  getlk req ino fh owner start «end» pid b := by
    refine ⟨_, rfl, ?_⟩
    rw [← any_conflicts_iff]
    by_cases hconflict : b.any (ByteLock.conflicts ino owner start.toNat («end».toNat + 1)) = true
    · simp [hconflict, LOCK_TYPE_WRLCK, LOCK_TYPE_UNLCK]
    · simp [hconflict]
  granted req ino fh owner start «end» pid sleep b hconflict := by
    rw [← any_conflicts_iff] at hconflict
    have hanswer : setlkReply ino owner start «end» LOCK_TYPE_WRLCK b
        = (some (.ok ()), ⟨ino, owner, start.toNat, «end».toNat + 1⟩ :: b) := by
      rw [setlkReply, if_neg write_ne_unlock, if_neg hconflict]
    change (setlkReply _ _ _ _ _ b).1 = _ ∧ ∀ i o byte,
      lockedBytes (setlkReply _ _ _ _ _ b).2 i o byte ↔ _
    rw [hanswer]
    refine ⟨rfl, fun i o byte => ⟨?_, ?_⟩⟩
    · rintro ⟨l, hl, rfl, rfl, hlow, hhigh⟩
      rcases List.mem_cons.mp hl with rfl | hl
      · exact .inr ⟨rfl, rfl, hlow, Nat.le_of_lt_succ hhigh⟩
      · exact .inl ⟨l, hl, rfl, rfl, hlow, hhigh⟩
    · rintro (⟨l, hl, hlock⟩ | ⟨rfl, rfl, hlow, hhigh⟩)
      · exact ⟨l, List.mem_cons_of_mem _ hl, hlock⟩
      · exact ⟨_, List.mem_cons_self, rfl, rfl, hlow, Nat.lt_succ_of_le hhigh⟩
  refused req ino fh owner start «end» pid sleep b hconflict := by
    rw [← any_conflicts_iff] at hconflict
    have hanswer : setlkReply ino owner start «end» LOCK_TYPE_WRLCK b
        = (some (.error EAGAIN), b) := by
      rw [setlkReply, if_neg write_ne_unlock, if_pos hconflict]
    exact ⟨congrArg Prod.fst hanswer, congrArg (fun answer => lockedBytes answer.2) hanswer⟩
  unlocked req ino fh owner start «end» pid sleep b := by
    refine ⟨rfl, fun i o byte => ?_⟩
    refine (lockedBytes_cut b ino owner start.toNat («end».toNat + 1) i o byte).trans ?_
    rw [Nat.lt_succ_iff]
    rfl
  others c b hc := by
    cases c <;> first | exact fun _ _ _ hlock => hlock | exact absurd rfl (hc _ _ _ _ _ _ _ _ _)
  forget _ _ _ _ _ _ _ hlock := hlock

end Confuse
