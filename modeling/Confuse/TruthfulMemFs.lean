import Confuse.GuardedMemFs
import Confuse.MemFsNamespace

/-!
# The truthful file system in memory

As long as its calls are careful and use one spelling for each name, the file system in memory is
truthful: guarded by this rule it is truthful whatever it is asked.
-/

namespace Confuse

open NameTree

/-- What a file system answers when it only knows its names. -/
def FsCall.told (cf : CaseFold) (ns : Namespace) : (c : FsCall) → c.Reply
  | .lookup _ parent name =>
      ((match ns parent (nameKey cf name) with
        | some (ino, generation) => some (.ok ⟨.plain ino .regularFile, MemFs.TTL, generation⟩)
        | none => some (.error ENOENT)) : Confuse.Reply ReplyEntryPayload)
  | c => c.unanswered

namespace MemFs
variable {cf : CaseFold} {spell : Str → OsStr} {clock : ℕ → SystemTime} {s : MemFs} {room : ℕ}
  {c : FsCall} {b : MemFs × (MemFsLock → Bool)}

variable (cf spell) in
/-- A state whose names are a namespace of the cache, with some numbers left. -/
structure Regular (room : ℕ) (s : MemFs) : Prop where
  arranged : Arranged s
  settled : ∃ lost, Settled room lost s
  inSpelling : Named (InSpelling cf spell) s.children

variable (cf spell) in
structure Proper (c : FsCall) (s : MemFs) : Prop where
  fits : c.panics = false
  careful : (MemFsCall.fs c).Careful s
  inSpelling : ∀ name ∈ c.entryNames, InSpelling cf spell name

theorem Regular.mono (h : Regular cf spell room s) {room' : ℕ} (hle : room' ≤ room) :
    Regular cf spell room' s where
  arranged := h.arranged
  settled := h.settled.imp fun _ hs => hs.mono hle
  inSpelling := h.inSpelling

theorem Regular.step (h : Regular cf spell (room + 1) s) (hc : Proper cf spell c s) :
    Regular cf spell room ((MemFsCall.fs c).effect clock s) := by
  obtain ⟨lost, hsettled⟩ := h.settled
  exact ⟨h.arranged.step hsettled hc.careful, ⟨_, hsettled.step hc.fits⟩,
    h.inSpelling.effect fun name hname => hc.inSpelling name (FsCall.mem_entryNames hname)⟩

theorem regular_new (now : SystemTime) (n : ℕ) (hfew : n + 2 < 2 ^ 64) :
    Regular cf spell n (new now) where
  arranged := arranged_new now
  settled := ⟨0, settled_new now n hfew⟩
  inSpelling := fun key i hi => by cases hi

theorem Regular.tree (h : Regular cf spell room s) : Tree (keyed cf spell s.children) .ROOT :=
  keyed_tree h.arranged.rooted.toTree h.inSpelling

/-- An inode and generation that a new entry does not get. -/
def Taken (b : MemFs × (MemFsLock → Bool)) (i : INodeNo) (_ : Generation) : Prop :=
  i = .ROOT ∨ i.raw.toNat < b.1.nextIno.toNat

theorem Regular.next (h : Regular cf spell 1 s) :
    ROOT_INO_RAW.toNat < s.nextIno.toNat ∧ (s.nextIno + 1).toNat = s.nextIno.toNat + 1 := by
  obtain ⟨lost, hsettled⟩ := h.settled
  have hbudget := hsettled.sound.budget
  rw [Multiset.count_replicate_self] at hbudget
  refine ⟨hsettled.sound.started, ?_⟩
  rw [UInt64.toNat_add]
  exact Nat.mod_eq_of_lt hbudget

variable (clock s) in
theorem nextIno_effect (c : FsCall) :
    ((MemFsCall.fs c).effect clock s).nextIno = s.nextIno ∨
      ((MemFsCall.fs c).effect clock s).nextIno = s.nextIno + 1 := by
  have hinsert : ∀ (parent : UInt64) (name : OsStr) (mode : UInt32) (kind : NewNodeKind),
      (s.insertEffect clock parent name mode kind).nextIno = s.nextIno ∨
        (s.insertEffect clock parent name mode kind).nextIno = s.nextIno + 1 := by
    intro parent name mode kind
    unfold insertEffect
    cases s.children.lookup (parent, name) with
    | none => exact .inr rfl
    | some i => exact .inl rfl
  cases c with
  | mkdir req parent name mode umask => exact hinsert ..
  | create req parent name mode umask flags => exact hinsert ..
  | unlink req parent name =>
      refine .inl ?_
      change (s.unlinkEffect clock parent.raw name).nextIno = _
      unfold unlinkEffect
      cases s.children.lookup (parent.raw, name) <;> rfl
  | rmdir req parent name =>
      refine .inl ?_
      change (s.rmdirEffect clock parent.raw name).nextIno = _
      unfold rmdirEffect
      cases s.children.lookup (parent.raw, name) with
      | none => rfl
      | some i =>
          dsimp only [Option.elim_some]
          split_ifs <;> rfl
  | rename req parent name newparent newname flags =>
      refine .inl ?_
      change (s.renameEffect clock parent.raw name newparent.raw newname).nextIno = _
      unfold renameEffect
      cases s.children.lookup (parent.raw, name) <;> rfl
  | _ => exact .inl rfl

/-! ## The file system that stays truthful -/

open Classical in
variable (cf spell) in
noncomputable def namespaceOf (b : MemFs × (MemFsLock → Bool)) : Namespace :=
  if b = calm b.1 ∧ Regular cf spell 0 b.1 then keyed cf spell b.1.children else fun _ _ => none

variable (cf spell) in
/-- Proper calls are served, others are told the names. -/
noncomputable def truthfulGuard : Guard where
  holds := Regular cf spell
  allows := Proper cf spell
  told c b := c.told cf (namespaceOf cf spell b)
  mono hle h := h.mono hle
  fits h := h.fits
  new := regular_new
  step := Regular.step

theorem namespaceOf_calm (h : Regular cf spell 0 s) :
    namespaceOf cf spell (calm s) = keyed cf spell s.children := if_pos ⟨rfl, h⟩

theorem change_told (c : FsCall) (ns : Namespace) : c.change (c.told cf ns) = none := by
  cases c <;> rfl

variable (clock) in
/-- A call that is served changes the namespace as its answer tells. -/
theorem tells_truthful (h : Regular cf spell c.room s) (hc : Proper cf spell c s) :
    match c.change ((MemFsCall.fs c).answer clock s) with
    | some change => change.Leads cf (namespaceOf cf spell (calm s))
        (namespaceOf cf spell (calm ((MemFsCall.fs c).effect clock s)))
    | none => namespaceOf cf spell (calm ((MemFsCall.fs c).effect clock s))
        = namespaceOf cf spell (calm s) := by
  have hafter : Regular cf spell 0 ((MemFsCall.fs c).effect clock s) :=
    Guard.next (g := truthfulGuard cf spell) (by rwa [Nat.zero_add]) hc
  rw [namespaceOf_calm (h.mono (Nat.zero_le _)), namespaceOf_calm hafter]
  have htold := tells_answer clock s hc.inSpelling
  unfold Tells at htold
  exact htold

theorem room_of_add {parent ino : INodeNo} {name : OsStr} {generation : Generation} {reply : c.Reply}
    (hadd : c.change reply = some (.add parent name ino generation)) : c.room = 1 := by
  cases c <;> first | rfl | cases hadd

/-- Numbers are taken for good. -/
theorem taken_effect (h : Regular cf spell c.room s) {i : INodeNo} {g : Generation}
    (htaken : Taken (calm s) i g) : Taken (calm ((MemFsCall.fs c).effect clock s)) i g := by
  refine htaken.imp id fun hlt => ?_
  change i.raw.toNat < s.nextIno.toNat at hlt
  change i.raw.toNat < ((MemFsCall.fs c).effect clock s).nextIno.toNat
  by_cases hkeeps : c.keepsAttributes
  · rwa [effect_of_keeps hkeeps]
  · rw [FsCall.room, if_neg hkeeps] at h
    have hnext := h.next
    rcases nextIno_effect clock s c with heq | heq <;> rw [heq] <;> omega

theorem not_taken_of_add (h : Regular cf spell c.room s) {parent ino : INodeNo} {name : OsStr}
    {generation : Generation}
    (hadd : c.change ((MemFsCall.fs c).answer clock s) = some (.add parent name ino generation))
    (g : Generation) : ¬ Taken (calm s) ino g := by
  rw [room_of_add hadd] at h
  have hstarted := h.next.1
  obtain rfl := ino_of_add hadd
  rintro (hroot | hlt)
  · have hraw : s.nextIno = ROOT_INO_RAW := congrArg INodeNo.raw hroot
    rw [hraw] at hstarted
    exact Nat.lt_irrefl _ hstarted
  · exact Nat.lt_irrefl _ hlt

section Lookup
variable {req : Request} {p : INodeNo} {name : OsStr}

/-- `lookup` finds what the namespace has. -/
theorem lookupAnswer_present (h : Regular cf spell 0 s)
    (hname : ∀ n ∈ (FsCall.lookup req p name).entryNames, InSpelling cf spell n) {i : INodeNo}
    {g : Generation} (hplace : namespaceOf cf spell (calm s) p (nameKey cf name) = some (i, g)) :
    ∃ payload : ReplyEntryPayload, some (s.lookupAnswer p.raw name) = some (.ok payload) ∧
      payload.attr.ino = i ∧ payload.generation = g := by
  rw [namespaceOf_calm h, keyed_name (hname name (List.mem_singleton_self _))] at hplace
  obtain ⟨j, hj, heq⟩ := Option.map_eq_some_iff.mp hplace
  obtain ⟨rfl, rfl⟩ := Prod.mk.inj heq
  obtain ⟨lost, hsettled⟩ := h.settled
  obtain ⟨node, hnode⟩ := Option.isSome_iff_exists.mp (hsettled.stored hj)
  refine ⟨⟨node.toAttr, TTL, ⟨0⟩⟩, ?_, ?_, rfl⟩
  · rw [lookupAnswer, hj, Option.bind_some, hnode, Option.elim_some]
  · exact congrArg INodeNo.mk (hsettled.sound.stored hnode).1

theorem lookupAnswer_absent (h : Regular cf spell 0 s)
    (hname : ∀ n ∈ (FsCall.lookup req p name).entryNames, InSpelling cf spell n)
    (hplace : namespaceOf cf spell (calm s) p (nameKey cf name) = none) :
    some (s.lookupAnswer p.raw name) = (some (.error ENOENT) : Reply ReplyEntryPayload) := by
  rw [namespaceOf_calm h, keyed_name (hname name (List.mem_singleton_self _)),
    Option.map_eq_none_iff] at hplace
  rw [lookupAnswer, hplace]
  rfl

end Lookup

theorem truthful {φ : Type} (cf : CaseFold) (spell : Str → OsStr) (clock : ℕ → SystemTime)
    (h : Host Unit φ) :
    Truthful cf ((h.memFs clock).answering ((truthfulGuard cf spell).reply clock))
      (namespaceOf cf spell) Taken where
  tree b := by
    unfold namespaceOf
    split_ifs with hregular
    · exact hregular.2.tree
    · exact .empty INodeNo.ROOT
  in_use := by
    intro b p k i g hplace
    unfold namespaceOf at hplace
    split_ifs at hplace with hregular
    obtain ⟨lost, hsettled⟩ := hregular.2.settled
    obtain ⟨node, hnode⟩ :=
      Option.isSome_iff_exists.mp (hsettled.stored (keyed_eq_some.mp hplace).2.1)
    exact .inr (hsettled.sound.stored hnode).2.1
  root_in_use b := .inl rfl
  changed := by
    intro c b change hchange
    change c.change ((truthfulGuard cf spell).reply clock c b).1 = _ at hchange
    change change.Leads cf _ (namespaceOf cf spell ((truthfulGuard cf spell).reply clock c b).2)
    rcases (truthfulGuard cf spell).reply_cases clock c b with ⟨s, rfl, hregular, hproper, heq⟩ | ⟨-, heq⟩
    · rw [heq] at hchange ⊢
      have htold := tells_truthful clock hregular hproper
      rwa [hchange] at htold
    · rw [heq] at hchange
      cases (change_told c _).symm.trans hchange
  unchanged := by
    intro c b hchange
    change c.change ((truthfulGuard cf spell).reply clock c b).1 = _ at hchange
    change namespaceOf cf spell ((truthfulGuard cf spell).reply clock c b).2 = _
    rcases (truthfulGuard cf spell).reply_cases clock c b with ⟨s, rfl, hregular, hproper, heq⟩ | ⟨-, heq⟩
    · rw [heq] at hchange ⊢
      have htold := tells_truthful clock hregular hproper
      rwa [hchange] at htold
    · rw [heq]
  stays_used := by
    intro c b i g hused
    change Taken ((truthfulGuard cf spell).reply clock c b).2 i g
    rcases (truthfulGuard cf spell).reply_cases clock c b with ⟨s, rfl, hregular, hproper, heq⟩ | ⟨-, heq⟩
    · rw [heq]
      exact taken_effect hregular hused
    · rwa [heq]
  never_reused := by
    intro c b parent name i g hchange
    change c.change ((truthfulGuard cf spell).reply clock c b).1 = _ at hchange
    rcases (truthfulGuard cf spell).reply_cases clock c b with ⟨s, rfl, hregular, hproper, heq⟩ | ⟨-, heq⟩
    · rw [heq] at hchange
      exact not_taken_of_add hregular hchange g
    · rw [heq] at hchange
      cases (change_told c _).symm.trans hchange
  lookup_present := by
    intro req p name b i g hplace
    change ∃ payload : ReplyEntryPayload,
      ((truthfulGuard cf spell).reply clock (.lookup req p name) b).1 = some (.ok payload) ∧ _
    rcases (truthfulGuard cf spell).reply_cases clock (.lookup req p name) b with
      ⟨s, rfl, hregular, hproper, heq⟩ | ⟨-, heq⟩
    · rw [heq]
      exact lookupAnswer_present hregular hproper.inSpelling hplace
    · rw [heq]
      dsimp only [truthfulGuard, FsCall.told]
      rw [hplace]
      exact ⟨_, rfl, rfl, rfl⟩
  lookup_absent := by
    intro req p name b hplace
    change ((truthfulGuard cf spell).reply clock (.lookup req p name) b).1 = _
    rcases (truthfulGuard cf spell).reply_cases clock (.lookup req p name) b with
      ⟨s, rfl, hregular, hproper, heq⟩ | ⟨-, heq⟩
    · rw [heq]
      exact lookupAnswer_absent hregular hproper.inSpelling hplace
    · rw [heq]
      dsimp only [truthfulGuard, FsCall.told]
      rw [hplace]
  listed := by
    intro req i fh offset b entry hentry
    change entry ∈ ((truthfulGuard cf spell).reply clock (.readdirplus req i fh offset) b).1.entries
      at hentry
    rcases (truthfulGuard cf spell).reply_cases clock (.readdirplus req i fh offset) b with
      ⟨s, rfl, hregular, hproper, heq⟩ | ⟨-, heq⟩
    · rw [heq] at hentry
      cases hentry
    · rw [heq] at hentry
      cases hentry
  forget_names _ _ _ _ := rfl
  forget_used _ _ _ _ _ _ hused := hused

theorem zeroIsFirst {φ : Type} (cf : CaseFold) (spell : Str → OsStr) (clock : ℕ → SystemTime)
    (h : Host Unit φ) :
    ZeroIsFirst ((h.memFs clock).answering ((truthfulGuard cf spell).reply clock)) Taken := by
  intro c b parent name i hchange g
  have hnew : ¬ Taken b i ⟨0⟩ := (truthful cf spell clock h).never_reused hchange
  exact hnew

end MemFs
end Confuse
