import Confuse.MemFsDirectories

/-!
# Reading a directory while it grows

Somebody asks for page after page of a directory, each time behind the last entry that came, and
others make calls in between. What has come, and what lies behind it, is the directory.
-/

namespace Confuse

open Interaction Capacity SortedCursor

namespace MemFs

/-- The reader asks for a page, or somebody makes a call. -/
inductive Turn
  | page (handle : ReplyHandle)
  | call (c : MemFsCall)

structure Reader where
  collected : List DirectoryEntryPayload
  cursor : UInt64

namespace Reader

def start : Reader := ⟨[], 0⟩

def take (r : Reader) (page : List DirectoryEntryPayload) : Reader :=
  ⟨r.collected ++ page, (page.getLast?.map DirectoryEntryPayload.offset).getD r.cursor⟩

end Reader

/-- The entries of a page, without regard to its status. -/
def pageEntries (reply : Option (ReplyCells DirectoryEntryPayload)) : List DirectoryEntryPayload :=
  reply.elim [] ReplyCells.entries

def turn (clock : ℕ → SystemTime) (ino : INodeNo) (p : Reader × (MemFs × (MemFsLock → Bool))) :
    Turn → Reader × (MemFs × (MemFsLock → Bool))
  | .page handle =>
      let reply := (readdir handle ino p.1.cursor).runAlone (machine clock) p.2
      (p.1.take (pageEntries reply.1), reply.2)
  | .call c => (p.1, (c.program.run (Prog.Machine.alone (machine clock)) p.2).2)

def follow (clock : ℕ → SystemTime) (ino : INodeNo) (turns : List Turn)
    (p : Reader × (MemFs × (MemFsLock → Bool))) : Reader × (MemFs × (MemFsLock → Bool)) :=
  turns.foldl (turn clock ino) p

/-- The calls between the pages add to the directory at most. -/
def Additive (ino : UInt64) (place : UInt64 × OsStr) (turns : List Turn) : Prop :=
  ∀ c, .call c ∈ turns → c.panics = false ∧ c.Spares ino place

theorem Additive.tail {ino : UInt64} {place : UInt64 × OsStr} {t : Turn} {turns : List Turn}
    (h : Additive ino place (t :: turns)) : Additive ino place turns :=
  fun c hc => h c (List.mem_cons_of_mem t hc)

section Turns
variable {clock : ℕ → SystemTime} {ino : INodeNo} {r : Reader} {s : MemFs} {room : ℕ}
  {lost : Multiset UInt64} {dir : INode} {turns : List Turn}

/-- The inode is a directory with this place. -/
def DirectoryAt (ino : UInt64) (parent : UInt64) (name : OsStr) (s : MemFs) : Prop :=
  ∃ dir, s.inodes.lookup ino = some dir ∧ dir.kind = .directory ∧ dir.parent = parent ∧ dir.name = name

variable {parent : UInt64} {name : OsStr}

theorem DirectoryAt.grows {s' : MemFs} (h : DirectoryAt ino.raw parent name s) (hgrows : Grows ino.raw s s') :
    DirectoryAt ino.raw parent name s' := by
  obtain ⟨dir, hdir, hkind, hparent, hname⟩ := h
  obtain ⟨dir', hdir', hplace⟩ := hgrows.places (.inl rfl) hdir
  have hsame := Prod.mk.inj hplace
  have hrest := Prod.mk.inj hsame.2
  have hlast := Prod.mk.inj hrest.2
  exact ⟨dir', hdir', hrest.1.trans hkind, hlast.1.trans hparent, hlast.2.trans hname⟩

/-- A page of a directory. -/
theorem run_page (h : DirectoryAt ino.raw parent name s) (handle : ReplyHandle) (r : Reader) :
    turn clock ino (r, calm s) (.page handle)
      = (r.take (s.listed handle ino.raw parent r.cursor).entries, calm s) := by
  obtain ⟨dir, hdir, hkind, rfl, -⟩ := h
  have hanswer : s.readdirAnswer handle ino.raw r.cursor = s.listed handle ino.raw dir.parent r.cursor := by
    unfold readdirAnswer
    rw [hdir, Option.elim_some, if_neg (not_not.mpr hkind)]
  rw [turn, alone_readdir, hanswer]
  rfl

variable (clock) in
/-- What a call between the pages leaves. -/
theorem call_between (hs : Settled (room + 1) lost s) (h : DirectoryAt ino.raw parent name s) {c : MemFsCall}
    (hsize : c.panics = false) (hspares : c.Spares ino.raw (parent, name)) :
    Settled room (c.orphaned s + lost) (c.effect clock s) ∧
      DirectoryAt ino.raw parent name (c.effect clock s) ∧
      s.dirEntries ino.raw parent <+: (c.effect clock s).dirEntries ino.raw parent := by
  have hstep : Settled room (c.orphaned s + lost) (c.effect clock s) := hs.step hsize
  have hgrows : Grows ino.raw s (c.effect clock s) := by
    obtain ⟨dir, hdir, -, rfl, rfl⟩ := h
    exact hs.grows hdir hspares
  refine ⟨hstep, h.grows hgrows, ?_⟩
  exact (List.prefix_cons_inj _).mpr ((List.prefix_cons_inj _).mpr (hgrows.childEntries_extends hs hstep))

variable (clock r) in
/-- The entries at the start are the first of those at the end. -/
theorem follow_extends (hs : Settled (room + turns.length) lost s) (h : DirectoryAt ino.raw parent name s)
    (hturns : Additive ino.raw (parent, name) turns) :
    s.dirEntries ino.raw parent
      <+: (follow clock ino turns (r, calm s)).2.1.dirEntries ino.raw parent := by
  induction turns generalizing s r lost with
  | nil => exact List.prefix_refl _
  | cons t rest ih =>
      have hroom : Settled (room + rest.length + 1) lost s := by
        rwa [List.length_cons, ← Nat.add_assoc] at hs
      rw [follow, List.foldl_cons]
      cases t with
      | page handle =>
          rw [run_page h]
          have hsame : Settled (room + rest.length) lost s :=
            ⟨hroom.sound.mono (Multiset.replicate_le_replicate _ |>.mpr (Nat.le_succ _)), hroom.placed,
              hroom.balanced⟩
          exact ih _ hsame h hturns.tail
      | call c =>
          obtain ⟨hsize, hspares⟩ := hturns c List.mem_cons_self
          obtain ⟨hstep, hopen, hextends⟩ := call_between clock hroom h hsize hspares
          have hturn : turn clock ino (r, calm s) (.call c) = (r, calm (c.effect clock s)) :=
            congrArg (Prod.mk r) (run_effect clock s hsize)
          rw [hturn]
          exact hextends.trans (ih _ hstep hopen hturns.tail)

/-- The reader has the first entries of the directory, and its cursor stands behind them. -/
def HasRead (r : Reader) (entries : List DirectoryEntryPayload) : Prop :=
  ∃ n ≤ entries.length, r.collected = entries.take n ∧
    r.cursor.toNat = position DirectoryEntryPayload.cookie 0 entries n

theorem HasRead.mono {entries entries' : List DirectoryEntryPayload} (h : HasRead r entries)
    (hextends : entries <+: entries') : HasRead r entries' := by
  obtain ⟨n, hn, hcollected, hcursor⟩ := h
  have htake : entries'.take n = entries.take n := by
    obtain ⟨more, rfl⟩ := hextends
    rw [List.take_append_of_le_length hn]
  refine ⟨n, hn.trans hextends.length_le, hcollected.trans htake.symm, ?_⟩
  rw [hcursor, position, position, htake]

/-- Behind the cursor lies what has not been read. -/
theorem HasRead.behind {d : Directory} (h : HasRead r d.entries) :
    r.collected ++ behind r.cursor d.entries = d.entries ∧
      ∃ n, r.collected = d.entries.take n ∧ MemFs.behind r.cursor d.entries = d.entries.drop n ∧
        r.cursor.toNat = position DirectoryEntryPayload.cookie 0 d.entries n := by
  obtain ⟨n, -, hcollected, hcursor⟩ := h
  have hrest : MemFs.behind r.cursor d.entries = d.entries.drop n := by
    rw [behind_eq_after, Directory.after, hcursor]
    exact rest_position d.increasing n
  exact ⟨by rw [hcollected, hrest, List.take_append_drop], n, hcollected, hrest, hcursor⟩

theorem HasRead.take {d : Directory} (h : HasRead r d.entries) {page : List DirectoryEntryPayload}
    (hpage : page <+: MemFs.behind r.cursor d.entries) : HasRead (r.take page) d.entries := by
  obtain ⟨-, n, hcollected, hrest, hcursor⟩ := h.behind
  rw [hrest] at hpage
  have htaken : page = (d.entries.drop n).take page.length := List.prefix_iff_eq_take.mp hpage
  have hcollected' : r.collected ++ page = d.entries.take (n + page.length) := by
    rw [hcollected, List.take_add, ← htaken]
  refine ⟨min (n + page.length) d.entries.length, Nat.min_le_right _ _, ?_, ?_⟩
  · rw [← List.take_eq_take_min]
    exact hcollected'
  · have hposition : position DirectoryEntryPayload.cookie 0 d.entries
        (min (n + page.length) d.entries.length)
        = position DirectoryEntryPayload.cookie 0 d.entries (n + page.length) := by
      rw [position, position, ← List.take_eq_take_min]
    rw [hposition, position_add, ← htaken, ← hcursor]
    unfold Reader.take
    cases page.getLast? <;> rfl

theorem load_le_of_extends {entries entries' : List DirectoryEntryPayload} (h : entries <+: entries') :
    load DirectoryEntryPayload.bytes entries ≤ load DirectoryEntryPayload.bytes entries' := by
  obtain ⟨more, rfl⟩ := h
  rw [load, load, List.map_append, List.sum_append]
  exact Nat.le_add_right _ _

theorem load_behind_le (offset : UInt64) (entries : List DirectoryEntryPayload) :
    load DirectoryEntryPayload.bytes (behind offset entries)
      ≤ load DirectoryEntryPayload.bytes entries := by
  induction entries with
  | nil => exact Nat.le_refl _
  | cons entry rest ih =>
      rw [behind_cons, load_cons]
      split_ifs
      · rw [load_cons]
        exact Nat.add_le_add_left ih _
      · exact ih.trans (Nat.le_add_left _ _)

/-- A page takes the reader on. -/
theorem HasRead.page (hs : Settled room lost s) (hread : HasRead r (s.dirEntries ino.raw parent))
    (hload : load DirectoryEntryPayload.bytes (s.dirEntries ino.raw parent) < 2 ^ 64)
    (handle : ReplyHandle) :
    HasRead (r.take (s.listed handle ino.raw parent r.cursor).entries)
      (s.dirEntries ino.raw parent) := by
  have hfits := addAll_longestFit handle
    (Nat.lt_of_le_of_lt (load_behind_le r.cursor (s.dirEntries ino.raw parent)) hload)
  exact HasRead.take (d := hs.directory ino.raw parent) hread hfits.initial

theorem follow_hasRead (hs : Settled (room + turns.length) lost s)
    (h : DirectoryAt ino.raw parent name s) (hturns : Additive ino.raw (parent, name) turns)
    (hload : load DirectoryEntryPayload.bytes
      ((follow clock ino turns (r, calm s)).2.1.dirEntries ino.raw parent) < 2 ^ 64)
    (hread : HasRead r (s.dirEntries ino.raw parent)) :
    ∃ s' lost', (follow clock ino turns (r, calm s)).2 = calm s' ∧ Settled room lost' s' ∧
      DirectoryAt ino.raw parent name s' ∧
      HasRead (follow clock ino turns (r, calm s)).1 (s'.dirEntries ino.raw parent) := by
  have hnow := Nat.lt_of_le_of_lt (load_le_of_extends (follow_extends clock r hs h hturns)) hload
  induction turns generalizing s r lost with
  | nil => exact ⟨s, lost, rfl, hs, h, hread⟩
  | cons t rest ih =>
      have hroom : Settled (room + rest.length + 1) lost s := by
        rwa [List.length_cons, ← Nat.add_assoc] at hs
      rw [follow, List.foldl_cons] at hload ⊢
      cases t with
      | page handle =>
          have hsame : Settled (room + rest.length) lost s :=
            ⟨hroom.sound.mono (Multiset.replicate_le_replicate _ |>.mpr (Nat.le_succ _)), hroom.placed,
              hroom.balanced⟩
          rw [run_page h] at hload ⊢
          exact ih hsame h hturns.tail hload (hread.page hsame hnow handle) hnow
      | call c =>
          obtain ⟨hsize, hspares⟩ := hturns c List.mem_cons_self
          obtain ⟨hstep, hopen, hextends⟩ := call_between clock hroom h hsize hspares
          have hturn : turn clock ino (r, calm s) (.call c) = (r, calm (c.effect clock s)) :=
            congrArg (Prod.mk r) (run_effect clock s hsize)
          rw [hturn] at hload ⊢
          have hlater := load_le_of_extends (follow_extends clock r hstep hopen hturns.tail)
          exact ih hstep hopen hturns.tail hload (hread.mono hextends) (Nat.lt_of_le_of_lt hlater hload)

end Turns

/-- What has come and what lies behind it is the directory: no child is left out and none comes twice,
however the directory has grown between the pages. One more page with enough room completes it. -/
theorem pages_meet_every_child (clock : ℕ → SystemTime) (now : SystemTime) {calls : List MemFsCall}
    (hsizes : ∀ c ∈ calls, c.panics = false) {ino : INodeNo} {dir : INode}
    (hdir : (served clock calls (calm (new now))).1.inodes.lookup ino.raw = some dir)
    (hkind : dir.kind = .directory) {turns : List Turn}
    (hturns : Additive ino.raw (dir.parent, dir.name) turns)
    (hfew : calls.length + turns.length + 2 < 2 ^ 64) {r : Reader} {s' : MemFs × (MemFsLock → Bool)}
    (hfollow : follow clock ino turns (.start, served clock calls (calm (new now))) = (r, s'))
    (hload : load DirectoryEntryPayload.bytes (s'.1.dirEntries ino.raw dir.parent) < 2 ^ 64) :
    (served clock calls (calm (new now))).1.dirEntries ino.raw dir.parent
        <+: s'.1.dirEntries ino.raw dir.parent ∧
      r.collected ++ behind r.cursor (s'.1.dirEntries ino.raw dir.parent)
        = s'.1.dirEntries ino.raw dir.parent ∧
      ∀ handle, load DirectoryEntryPayload.bytes (s'.1.dirEntries ino.raw dir.parent)
          ≤ handle.maxSize.toNat →
        (turn clock ino (r, s') (.page handle)).1.collected
          = s'.1.dirEntries ino.raw dir.parent := by
  have hnew : Settled (turns.length + calls.length) 0 (new now) := settled_new now _ (by omega)
  obtain ⟨s, hserved, hsettled⟩ := hnew.run clock hsizes
  rw [← Nat.zero_add turns.length] at hsettled
  rw [hserved] at hdir hfollow ⊢
  have hopen : DirectoryAt ino.raw dir.parent dir.name s := ⟨dir, hdir, hkind, rfl, rfl⟩
  have hload' : load DirectoryEntryPayload.bytes
      ((follow clock ino turns (.start, calm s)).2.1.dirEntries ino.raw dir.parent) < 2 ^ 64 := by
    rw [hfollow]
    exact hload
  have hextends := follow_extends clock .start hsettled hopen hturns
  have hstart : HasRead .start (s.dirEntries ino.raw dir.parent) := ⟨0, Nat.zero_le _, rfl, rfl⟩
  obtain ⟨last, lost', hlast, hsettled', hopen', hread⟩ :=
    follow_hasRead hsettled hopen hturns hload' hstart
  rw [hfollow] at hextends hlast hread
  obtain rfl : s' = calm last := hlast
  have hbehind := (HasRead.behind (d := hsettled'.directory ino.raw dir.parent) hread).1
  refine ⟨hextends, hbehind, fun handle hroom => ?_⟩
  have hle := load_behind_le r.cursor (last.dirEntries ino.raw dir.parent)
  have hfits := (addAll_longestFit handle (Nat.lt_of_le_of_lt hle hload)).eq_of_fits _ _ (hle.trans hroom)
  rw [run_page hopen']
  refine Eq.trans ?_ hbehind
  exact congrArg (r.collected ++ ·) hfits

def newDirectory : List MemFsCall := [.fs (.mkdir ⟨0, 0, 1⟩ .ROOT (.new ['d']) 0o755 0)]

/-- A file is made between two pages, of which the second has no room for a child. -/
def fileBetween : List Turn :=
  [.page .capture, .call (.mknod ⟨0, 0, 1⟩ ⟨2⟩ (.new ['f']) 0o644 0 0), .page ⟨0⟩]

def fileBetweenRead : Reader × (MemFs × (MemFsLock → Bool)) :=
  follow stillClock ⟨2⟩ fileBetween (.start, served stillClock newDirectory (calm (new .UNIX_EPOCH)))

theorem pages_meet_every_child_fileBetween :
    fileBetweenRead.1.collected.length = 2 ∧
      fileBetweenRead.1.collected
          ++ behind fileBetweenRead.1.cursor (fileBetweenRead.2.1.dirEntries 2 1)
        = fileBetweenRead.2.1.dirEntries 2 1 := by
  have hsizes : ∀ c ∈ newDirectory, c.panics = false := by
    intro c hc
    obtain rfl := List.mem_singleton.mp hc
    rfl
  have hdir : (served stillClock newDirectory (calm (new .UNIX_EPOCH))).1.inodes.lookup 2
      = some (.newDir 2 1 (.new ['d']) 0o755 .UNIX_EPOCH) := rfl
  have hturns : Additive 2 (1, .new ['d']) fileBetween := by
    intro c hc
    simp only [fileBetween, List.mem_cons, List.not_mem_nil, or_false, reduceCtorEq, false_or,
      Turn.call.injEq] at hc
    rw [hc]
    exact ⟨rfl, trivial⟩
  have hload : load DirectoryEntryPayload.bytes (fileBetweenRead.2.1.dirEntries 2 1) < 2 ^ 64 := by
    decide
  exact ⟨rfl, (pages_meet_every_child stillClock .UNIX_EPOCH hsizes hdir rfl hturns (by decide)
    (show _ = (fileBetweenRead.1, fileBetweenRead.2) from rfl) hload).2.1⟩

end MemFs
end Confuse
