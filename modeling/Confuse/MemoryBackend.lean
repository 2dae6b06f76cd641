import Confuse.TruthfulHost

/-!
# A file system in memory

Its state is a table of names that forms a tree, with the pairs it has given out and the pairs that
it will give out next. It refuses what would break the tree, so every state is one, and it is
truthful.
-/

namespace Confuse

open Interaction NameTree

theorem isComponent_iff (s : Str) : IsComponent s ↔ s ≠ [] ∧ s.all (fun c => !isSeparator c) = true ∧
    s.getLast? ≠ some ':' ∧ s ≠ ['.'] ∧ s ≠ ['.', '.'] := by
  constructor
  · rintro ⟨hne, hsep, hdrive, hdot, hdots⟩
    exact ⟨hne, by simpa using hsep, hdrive, hdot, hdots⟩
  · rintro ⟨hne, hsep, hdrive, hdot, hdots⟩
    exact ⟨hne, by simpa using hsep, hdrive, hdot, hdots⟩

instance (s : Str) : Decidable (IsComponent s) := decidable_of_iff' _ (isComponent_iff s)

abbrev NameTable := KeyedMap (INodeNo × Str) (INodeNo × Generation)

namespace NameTable

def names (t : NameTable) : Namespace := fun p k => t.lookup (p, k)

theorem names_insert (t : NameTable) (p : INodeNo) (k : Str) (v : INodeNo × Generation) :
    names (t.insert (p, k) v) = assign t.names p k (some v) := by
  funext p' k'
  unfold names assign
  by_cases hkey : p' = p ∧ k' = k
  · rw [if_pos hkey, hkey.1, hkey.2, AList.lookup_insert]
  · rw [if_neg hkey, AList.lookup_insert_ne fun heq => hkey (Prod.mk.inj heq)]

theorem names_erase (t : NameTable) (p : INodeNo) (k : Str) :
    names (t.erase (p, k)) = assign t.names p k none := by
  funext p' k'
  unfold names assign
  by_cases hkey : p' = p ∧ k' = k
  · rw [if_pos hkey, hkey.1, hkey.2, AList.lookup_erase]
  · rw [if_neg hkey, AList.lookup_erase_ne fun heq => hkey (Prod.mk.inj heq)]

/-- The nodes of the tree. -/
def contains (t : NameTable) (i : INodeNo) : Bool :=
  i = .ROOT || t.entries.any fun e => e.2.1 = i

theorem contains_iff (t : NameTable) (i : INodeNo) :
    t.contains i ↔ Tree.InTree t.names .ROOT i := by
  unfold contains Tree.InTree
  rw [Bool.or_eq_true, decide_eq_true_eq, List.any_eq_true]
  refine or_congr Iff.rfl ⟨?_, ?_⟩
  · rintro ⟨⟨⟨p, k⟩, j, g⟩, hmem, hj⟩
    obtain rfl : j = i := by simpa using hj
    exact ⟨p, k, g, AList.mem_lookup_iff.mpr hmem⟩
  · rintro ⟨p, k, g, hplace⟩
    exact ⟨⟨(p, k), (i, g)⟩, AList.mem_lookup_iff.mp hplace, by simp⟩

/-- A node without children. -/
def childless (t : NameTable) (i : INodeNo) : Bool := t.entries.all fun e => e.1.1 ≠ i

theorem childless_iff (t : NameTable) (i : INodeNo) : t.childless i ↔ ∀ c, t.names i c = none := by
  unfold childless
  rw [List.all_eq_true]
  constructor
  · intro hall c
    by_contra hchild
    obtain ⟨v, hv⟩ := Option.ne_none_iff_exists'.mp hchild
    simpa using hall ⟨(i, c), v⟩ (AList.mem_lookup_iff.mp hv)
  · rintro hnone ⟨⟨p, k⟩, v⟩ hmem
    have hlookup : t.names p k = some v := AList.mem_lookup_iff.mpr hmem
    rw [decide_eq_true_eq]
    rintro rfl
    rw [hnone] at hlookup
    cases hlookup

end NameTable

/-- The state of the file system; `given` are the pairs that have been in use. With `z` an inode that
was in use may come back with generation 0. -/
structure Memory (cf : CaseFold) (z : Bool) where
  table : NameTable
  given : List (INodeNo × Generation)
  supply : List (INodeNo × Generation)
  directories : List INodeNo
  tree : Tree table.names .ROOT
  keys : ∀ {p k v}, table.names p k = some v → IsComponent k ∧ cf.toLowercase k = k
  recorded : ∀ {p k v}, table.names p k = some v → v ∈ given
  root : rootEntry ∈ given

namespace Memory
variable {cf : CaseFold} {z : Bool}

def empty (cf : CaseFold) (z : Bool) (supply : List (INodeNo × Generation)) : Memory cf z where
  table := ∅
  given := [rootEntry]
  supply := supply
  directories := [INodeNo.ROOT]
  tree := Tree.empty INodeNo.ROOT
  keys h := absurd h (by simp [NameTable.names])
  recorded h := absurd h (by simp [NameTable.names])
  root := List.mem_cons_self

def attr (m : Memory cf z) (i : INodeNo) : FileAttr :=
  .plain i (if i ∈ m.directories then .directory else .regularFile)

/-- A pair that may be given out. -/
def IsNew (m : Memory cf z) (v : INodeNo × Generation) : Prop :=
  v ∉ m.given ∧ (z ∨ v.2 ≠ ⟨0⟩ ∨ ∀ w ∈ m.given, w.1 ≠ v.1)

instance (m : Memory cf z) (v : INodeNo × Generation) : Decidable (m.IsNew v) :=
  inferInstanceAs (Decidable (_ ∧ _))

/-- A name can be added when it is free and its place and its pair are good. -/
def CanAdd (m : Memory cf z) (parent : INodeNo) (name : OsStr) (v : INodeNo × Generation) : Prop :=
  IsComponent name.toStringLossy ∧ m.table.names parent (nameKey cf name) = none ∧
    m.table.contains parent ∧ m.table.contains v.1 = false ∧ m.IsNew v

instance (m : Memory cf z) (parent : INodeNo) (name : OsStr) (v : INodeNo × Generation) :
    Decidable (m.CanAdd parent name v) := inferInstanceAs (Decidable (_ ∧ _ ∧ _ ∧ _ ∧ _))

def add (m : Memory cf z) (parent : INodeNo) (name : OsStr) (v : INodeNo × Generation)
    (isDir : Bool) (h : m.CanAdd parent name v) : Memory cf z where
  table := m.table.insert (parent, nameKey cf name) v
  given := v :: m.given
  supply := m.supply.tail
  directories := if isDir then v.1 :: m.directories else m.directories
  tree := by
    obtain ⟨-, habsent, hparent, hnew, -⟩ := h
    rw [NameTable.names_insert]
    have hout : ¬ Tree.InTree m.table.names .ROOT v.1 := by
      rw [← NameTable.contains_iff, hnew]
      simp
    exact m.tree.add v.2 ((NameTable.contains_iff _ _).mp hparent) habsent
      (fun hroot => hout (.inl hroot)) fun p' k' g' hplace => hout (.inr ⟨p', k', g', hplace⟩)
  keys := by
    intro p k w hw
    rw [NameTable.names_insert] at hw
    unfold assign at hw
    split_ifs at hw with hkey
    · exact hkey.2 ▸ ⟨cf.isComponent _ h.1, cf.idempotent _⟩
    · exact m.keys hw
  recorded := by
    intro p k w hw
    rw [NameTable.names_insert] at hw
    unfold assign at hw
    split_ifs at hw with hkey
    · exact Option.some.inj hw ▸ List.mem_cons_self
    · exact List.mem_cons_of_mem v (m.recorded hw)
  root := List.mem_cons_of_mem v m.root

/-- A name can be removed when its node has no children. -/
def CanRemove (m : Memory cf z) (parent : INodeNo) (name : OsStr) : Prop :=
  IsComponent name.toStringLossy ∧
    (m.table.names parent (nameKey cf name)).any fun v => m.table.childless v.1

instance (m : Memory cf z) (parent : INodeNo) (name : OsStr) : Decidable (m.CanRemove parent name) :=
  inferInstanceAs (Decidable (_ ∧ _))

def remove (m : Memory cf z) (parent : INodeNo) (name : OsStr) (h : m.CanRemove parent name) :
    Memory cf z where
  table := m.table.erase (parent, nameKey cf name)
  given := m.given
  supply := m.supply
  directories := m.directories
  tree := by
    obtain ⟨v, hv, hleaf⟩ := (Option.any_eq_true _ _).mp h.2
    rw [NameTable.names_erase]
    exact m.tree.remove hv ((NameTable.childless_iff _ _).mp hleaf)
  keys := by
    intro p k w hw
    rw [NameTable.names_erase] at hw
    unfold assign at hw
    split_ifs at hw
    exact m.keys hw
  recorded := by
    intro p k w hw
    rw [NameTable.names_erase] at hw
    unfold assign at hw
    split_ifs at hw
    exact m.recorded hw
  root := m.root

/-- A name can be moved to a free name outside of its own node. -/
def CanMove (m : Memory cf z) (parent : INodeNo) (name : OsStr) (newparent : INodeNo)
    (newname : OsStr) (v : INodeNo × Generation) : Prop :=
  IsComponent name.toStringLossy ∧ IsComponent newname.toStringLossy ∧
    m.table.names parent (nameKey cf name) = some v ∧ m.table.contains newparent ∧ newparent ≠ v.1 ∧
    m.table.names newparent (nameKey cf newname) = none

instance (m : Memory cf z) (parent : INodeNo) (name : OsStr) (newparent : INodeNo) (newname : OsStr)
    (v : INodeNo × Generation) : Decidable (m.CanMove parent name newparent newname v) :=
  inferInstanceAs (Decidable (_ ∧ _ ∧ _ ∧ _ ∧ _ ∧ _))

def move (m : Memory cf z) (parent : INodeNo) (name : OsStr) (newparent : INodeNo) (newname : OsStr)
    (v : INodeNo × Generation) (h : m.CanMove parent name newparent newname v) : Memory cf z where
  table := (m.table.erase (parent, nameKey cf name)).insert (newparent, nameKey cf newname) v
  given := m.given
  supply := m.supply
  directories := m.directories
  tree := by
    obtain ⟨-, -, hchild, hparent, hself, hfree⟩ := h
    rw [NameTable.names_insert, NameTable.names_erase]
    exact m.tree.move hchild ((NameTable.contains_iff _ _).mp hparent) hself hfree
  keys := by
    intro p k w hw
    rw [NameTable.names_insert, NameTable.names_erase] at hw
    unfold assign at hw
    split_ifs at hw with hkey
    · exact hkey.2 ▸ ⟨cf.isComponent _ h.2.1, cf.idempotent _⟩
    · exact m.keys hw
  recorded := by
    intro p k w hw
    rw [NameTable.names_insert, NameTable.names_erase] at hw
    unfold assign at hw
    split_ifs at hw with hkey
    · exact m.recorded (h.2.2.1.trans (congrArg some (Option.some.inj hw)))
    · exact m.recorded hw
  root := m.root

/-! ## Answers -/

def addResult (m : Memory cf z) (parent : INodeNo) (name : OsStr) (isDir : Bool) :
    Except Errno (INodeNo × Generation) × Memory cf z :=
  if (m.table.names parent (nameKey cf name)).isSome then (.error EEXIST, m)
  else match m.supply with
    | [] => (.error ENOSPC, m)
    | v :: _ =>
        if h : m.CanAdd parent name v then (.ok v, m.add parent name v isDir h)
        else (.error EINVAL, m)

def removeResult (m : Memory cf z) (parent : INodeNo) (name : OsStr) : Reply Unit × Memory cf z :=
  if h : m.CanRemove parent name then (some (.ok ()), m.remove parent name h)
  else (some (.error EINVAL), m)

def moveResult (m : Memory cf z) (parent : INodeNo) (name : OsStr) (newparent : INodeNo)
    (newname : OsStr) : Reply Unit × Memory cf z :=
  match m.table.names parent (nameKey cf name) with
  | none => (some (.error ENOENT), m)
  | some v =>
      if h : m.CanMove parent name newparent newname v then
        (some (.ok ()), m.move parent name newparent newname v h)
      else (some (.error EINVAL), m)

def lookupResult (ttl : Duration) (m : Memory cf z) (parent : INodeNo) (name : OsStr) :
    Reply ReplyEntryPayload :=
  match m.table.names parent (nameKey cf name) with
  | none => some (.error ENOENT)
  | some (i, g) => some (.ok ⟨m.attr i, ttl, g⟩)

/-- The children of a directory, under their keys. -/
def listResult (ttl : Duration) (m : Memory cf z) (ino : INodeNo) : ReplyDirectoryPlus where
  entries := (m.table.entries.filter fun e => e.1.1 = ino).map fun e =>
    ⟨e.2.1, 1, .new e.1.2, ttl, m.attr e.2.1, e.2.2⟩
  status := some (.ok ())

/-- Everything is valid for `ttl`. -/
def reply (ttl : Duration) : (c : FsCall) → Memory cf z → c.Reply × Memory cf z
  | .lookup _ parent name, m => (m.lookupResult ttl parent name, m)
  | .getattr _ ino _, m => (some (.ok (⟨m.attr ino, ttl⟩ : ReplyAttrPayload)), m)
  | .mkdir _ parent name _ _, m =>
      let added := m.addResult parent name true
      (some (added.1.map fun v => (⟨added.2.attr v.1, ttl, v.2⟩ : ReplyEntryPayload)), added.2)
  | .create _ parent name _ _ _, m =>
      let added := m.addResult parent name false
      (some (added.1.map fun v =>
        (⟨added.2.attr v.1, ttl, v.2, ⟨8⟩, ⟨0⟩⟩ : ReplyCreatePayload)), added.2)
  | .unlink _ parent name, m | .rmdir _ parent name, m => m.removeResult parent name
  | .rename _ parent name newparent newname _, m => m.moveResult parent name newparent newname
  | .open _ _ _, m | .opendir _ _ _, m => (some (.ok (⟨⟨9⟩, ⟨0⟩⟩ : ReplyOpenPayload)), m)
  | .readdirplus _ ino _ _, m => (m.listResult ttl ino, m)
  | c, m => (c.unanswered, m)

end Memory

/-- The file system in memory, with a clock that stands still. -/
def Host.memory (cf : CaseFold) (z : Bool) (ttl : Duration) : Host (Memory cf z) Unit where
  reply := Memory.reply ttl
  forget _ _ _ m := m
  clock _ := 0
  fillFindData _ b := (true, b)
  fillFindStreamData _ b := (true, b)

namespace Memory
variable {cf : CaseFold} {z : Bool}

def names (m : Memory cf z) : Namespace := m.table.names

def used (m : Memory cf z) (i : INodeNo) (g : Generation) : Prop := (i, g) ∈ m.given

theorem addResult_ok {m m' : Memory cf z} {parent : INodeNo} {name : OsStr} {isDir : Bool}
    {v : INodeNo × Generation} (h : m.addResult parent name isDir = (.ok v, m')) :
    ∃ hadd : m.CanAdd parent name v, m' = m.add parent name v isDir hadd := by
  unfold addResult at h
  split_ifs at h with hpresent
  · simp at h
  split at h
  · simp at h
  · split_ifs at h with hadd
    · obtain ⟨hv, rfl⟩ := Prod.mk.inj h
      obtain rfl := Except.ok.inj hv
      exact ⟨hadd, rfl⟩
    · simp at h

theorem addResult_error {m m' : Memory cf z} {parent : INodeNo} {name : OsStr} {isDir : Bool}
    {err : Errno} (h : m.addResult parent name isDir = (.error err, m')) : m' = m := by
  unfold addResult at h
  split_ifs at h with hpresent
  · exact (Prod.mk.inj h).2.symm
  · split at h
    · exact (Prod.mk.inj h).2.symm
    · split_ifs at h with hadd
      · simp at h
      · exact (Prod.mk.inj h).2.symm

/-- What an addition, answered or refused, leaves. -/
theorem add_changed {m : Memory cf z} {parent : INodeNo} {name : OsStr} {isDir : Bool}
    {v : INodeNo × Generation} (h : (m.addResult parent name isDir).1 = .ok v) :
    NameChange.Leads cf m.names (m.addResult parent name isDir).2.names (.add parent name v.1 v.2) ∧
      m.IsNew v ∧ ∀ w ∈ m.given, w ∈ (m.addResult parent name isDir).2.given := by
  have hresult : m.addResult parent name isDir = (.ok v, (m.addResult parent name isDir).2) :=
    Prod.ext h rfl
  obtain ⟨hadd, hstate⟩ := addResult_ok hresult
  rw [hstate]
  exact ⟨⟨hadd.1, hadd.2.1, NameTable.names_insert _ _ _ _⟩, hadd.2.2.2.2,
    fun w hw => List.mem_cons_of_mem v hw⟩

theorem remove_changed {m : Memory cf z} {parent : INodeNo} {name : OsStr}
    (h : (m.removeResult parent name).1 = some (.ok ())) :
    NameChange.Leads cf m.names (m.removeResult parent name).2.names (.remove parent name) := by
  unfold removeResult at h ⊢
  split_ifs at h ⊢ with hremove
  · exact ⟨hremove.1, NameTable.names_erase _ _ _⟩
  · cases h

theorem move_changed {m : Memory cf z} {parent newparent : INodeNo} {name newname : OsStr}
    (h : (m.moveResult parent name newparent newname).1 = some (.ok ())) :
    NameChange.Leads cf m.names (m.moveResult parent name newparent newname).2.names
      (.move parent name newparent newname) := by
  unfold moveResult at h ⊢
  split at h
  · cases h
  · split_ifs at h ⊢ with hmove
    · refine ⟨hmove.1, hmove.2.1, _, hmove.2.2.1, ?_⟩
      exact (NameTable.names_insert _ _ _ _).trans (by rw [NameTable.names_erase]; rfl)
    · cases h

theorem mkdir_ok {req : Request} {parent : INodeNo} {name : OsStr} {mode umask : UInt32}
    {answer : Except Errno (INodeNo × Generation)} {attr : INodeNo → FileAttr} {ttl : Duration}
    {change : NameChange} (hattr : ∀ i, (attr i).ino = i)
    (h : (FsCall.mkdir req parent name mode umask).change
      (some (answer.map fun v => (⟨attr v.1, ttl, v.2⟩ : ReplyEntryPayload))
        : Reply ReplyEntryPayload) = some change) :
    ∃ v, answer = .ok v ∧ change = .add parent name v.1 v.2 := by
  cases answer with
  | error err => cases h
  | ok v =>
      refine ⟨v, rfl, ?_⟩
      rw [← Option.some.inj h, hattr]

theorem create_ok {req : Request} {parent : INodeNo} {name : OsStr} {mode umask : UInt32}
    {flags : Int32} {answer : Except Errno (INodeNo × Generation)} {attr : INodeNo → FileAttr}
    {ttl : Duration} {change : NameChange} (hattr : ∀ i, (attr i).ino = i)
    (h : (FsCall.create req parent name mode umask flags).change
      (some (answer.map fun v => (⟨attr v.1, ttl, v.2, ⟨8⟩, ⟨0⟩⟩ : ReplyCreatePayload))
        : Reply ReplyCreatePayload) = some change) :
    ∃ v, answer = .ok v ∧ change = .add parent name v.1 v.2 := by
  cases answer with
  | error err => cases h
  | ok v =>
      refine ⟨v, rfl, ?_⟩
      rw [← Option.some.inj h, hattr]

theorem mkdir_error {req : Request} {parent : INodeNo} {name : OsStr} {mode umask : UInt32}
    {answer : Except Errno (INodeNo × Generation)} {f : INodeNo × Generation → ReplyEntryPayload}
    (h : (FsCall.mkdir req parent name mode umask).change
      (some (answer.map f) : Reply ReplyEntryPayload) = none) : ∃ err, answer = .error err := by
  cases answer with
  | error err => exact ⟨err, rfl⟩
  | ok v => cases h

theorem create_error {req : Request} {parent : INodeNo} {name : OsStr} {mode umask : UInt32}
    {flags : Int32} {answer : Except Errno (INodeNo × Generation)}
    {f : INodeNo × Generation → ReplyCreatePayload}
    (h : (FsCall.create req parent name mode umask flags).change
      (some (answer.map f) : Reply ReplyCreatePayload) = none) : ∃ err, answer = .error err := by
  cases answer with
  | error err => exact ⟨err, rfl⟩
  | ok v => cases h

/-- What a successful change leaves of the names and of the pairs in use. -/
def Changed (m m' : Memory cf z) (change : NameChange) : Prop :=
  change.Leads cf m.names m'.names ∧ (∀ v ∈ m.given, v ∈ m'.given) ∧
    ∀ parent name i g, change = .add parent name i g → m.IsNew (i, g)

theorem changed_of_add {m : Memory cf z} {parent : INodeNo} {name : OsStr} {isDir : Bool}
    {v : INodeNo × Generation} (h : (m.addResult parent name isDir).1 = .ok v) :
    m.Changed (m.addResult parent name isDir).2 (.add parent name v.1 v.2) := by
  obtain ⟨hleads, hnew, hgiven⟩ := add_changed h
  refine ⟨hleads, hgiven, fun parent' name' i g heq => ?_⟩
  obtain ⟨-, -, rfl, rfl⟩ := NameChange.add.inj heq
  exact hnew

theorem removeResult_cases (m : Memory cf z) (parent : INodeNo) (name : OsStr) :
    (m.removeResult parent name).1 = some (.ok ()) ∨ (m.removeResult parent name).2 = m := by
  unfold removeResult
  split_ifs
  · exact .inl rfl
  · exact .inr rfl

theorem moveResult_cases (m : Memory cf z) (parent newparent : INodeNo) (name newname : OsStr) :
    (m.moveResult parent name newparent newname).1 = some (.ok ()) ∨
      (m.moveResult parent name newparent newname).2 = m := by
  unfold moveResult
  split
  · exact .inr rfl
  · split_ifs
    · exact .inl rfl
    · exact .inr rfl

theorem removeResult_given (m : Memory cf z) (parent : INodeNo) (name : OsStr) :
    (m.removeResult parent name).2.given = m.given := by
  unfold removeResult
  split_ifs <;> rfl

theorem moveResult_given (m : Memory cf z) (parent newparent : INodeNo) (name newname : OsStr) :
    (m.moveResult parent name newparent newname).2.given = m.given := by
  unfold moveResult
  split
  · rfl
  · split_ifs <;> rfl

theorem reply_changed {ttl : Duration} {c : FsCall} {m : Memory cf z} {change : NameChange}
    (h : c.change (reply ttl c m).1 = some change) : m.Changed (reply ttl c m).2 change := by
  cases c with
  | mkdir req parent name mode umask =>
      obtain ⟨v, hv, rfl⟩ := mkdir_ok (fun _ => rfl) h
      exact changed_of_add hv
  | create req parent name mode umask flags =>
      obtain ⟨v, hv, rfl⟩ := create_ok (fun _ => rfl) h
      exact changed_of_add hv
  | unlink req parent name =>
      obtain ⟨hok, rfl⟩ := FsCall.change_unlink h
      exact ⟨remove_changed hok, fun v hv => (removeResult_given m parent name).symm ▸ hv, by simp⟩
  | rmdir req parent name =>
      obtain ⟨hok, rfl⟩ := FsCall.change_rmdir h
      exact ⟨remove_changed hok, fun v hv => (removeResult_given m parent name).symm ▸ hv, by simp⟩
  | rename req parent name newparent newname flags =>
      obtain ⟨hok, rfl⟩ := FsCall.change_rename h
      exact ⟨move_changed hok,
        fun v hv => (moveResult_given m parent newparent name newname).symm ▸ hv, by simp⟩
  | _ => cases h

/-- A refused change leaves the state alone. -/
theorem reply_unchanged {ttl : Duration} {c : FsCall} {m : Memory cf z}
    (h : c.change (reply ttl c m).1 = none) : (reply ttl c m).2 = m := by
  cases c with
  | mkdir req parent name mode umask =>
      obtain ⟨err, herr⟩ := mkdir_error h
      exact addResult_error (Prod.ext herr rfl)
  | create req parent name mode umask flags =>
      obtain ⟨err, herr⟩ := create_error h
      exact addResult_error (Prod.ext herr rfl)
  | unlink req parent name =>
      refine (removeResult_cases m parent name).resolve_left fun hok => ?_
      have hchange : (FsCall.unlink req parent name).change (m.removeResult parent name).1 = none := h
      rw [hok] at hchange
      cases hchange
  | rmdir req parent name =>
      refine (removeResult_cases m parent name).resolve_left fun hok => ?_
      have hchange : (FsCall.rmdir req parent name).change (m.removeResult parent name).1 = none := h
      rw [hok] at hchange
      cases hchange
  | rename req parent name newparent newname flags =>
      refine (moveResult_cases m parent newparent name newname).resolve_left fun hok => ?_
      have hchange : (FsCall.rename req parent name newparent newname flags).change
          (m.moveResult parent name newparent newname).1 = none := h
      rw [hok] at hchange
      cases hchange
  | _ => rfl

theorem listed_child {ttl : Duration} {m : Memory cf z} {i : INodeNo}
    {entry : DirectoryPlusEntryPayload} (h : entry ∈ (m.listResult ttl i).entries) :
    IsComponent entry.name.toStringLossy ∧
      m.names i (nameKey cf entry.name) = some (entry.attr.ino, entry.generation) := by
  obtain ⟨⟨⟨p, k⟩, v⟩, hmem, rfl⟩ := List.mem_map.mp h
  obtain ⟨htable, hp⟩ := List.mem_filter.mp hmem
  obtain rfl : p = i := by simpa using hp
  have hlookup : m.names p k = some v := AList.mem_lookup_iff.mpr htable
  obtain ⟨hcomponent, hfold⟩ := m.keys hlookup
  refine ⟨by rwa [OsStr.toStringLossy_new], ?_⟩
  rw [nameKey, OsStr.toStringLossy_new, hfold, hlookup]
  rfl

end Memory

open Memory in
/-- The file system in memory is truthful. -/
theorem memory_truthful (cf : CaseFold) (z : Bool) (ttl : Duration) :
    Truthful cf (Host.memory cf z ttl) Memory.names Memory.used where
  tree m := m.tree
  in_use h := Memory.recorded _ h
  root_in_use m := m.root
  changed h := (reply_changed h).1
  unchanged {c m} h := by
    have hsame : (reply ttl c m).2 = m := reply_unchanged h
    exact congrArg Memory.names hsame
  stays_used c m i g h := by
    cases hchange : c.change (reply ttl c m).1 with
    | none =>
        have hsame := reply_unchanged hchange
        exact (congrArg (fun m' => Memory.used m' i g) hsame).symm ▸ h
    | some change => exact (reply_changed hchange).2.1 _ h
  never_reused h := ((reply_changed h).2.2 _ _ _ _ rfl).1
  lookup_present {req p name m i g} h := by
    refine ⟨⟨m.attr i, ttl, g⟩, ?_, rfl, rfl⟩
    change m.lookupResult ttl p name = _
    unfold lookupResult
    rw [show m.table.names p (nameKey cf name) = some (i, g) from h]
  lookup_absent {req p name m} h := by
    change m.lookupResult ttl p name = _
    unfold lookupResult
    rw [show m.table.names p (nameKey cf name) = none from h]
  listed h := listed_child h
  forget_names _ _ _ _ := rfl
  forget_used _ _ _ _ _ _ h := h

/-- Without `z` generation 0 is for inodes that were never in use. -/
theorem memory_zeroIsFirst (cf : CaseFold) (ttl : Duration) :
    ZeroIsFirst (Host.memory cf false ttl) Memory.used := by
  intro c m parent name i hchange g hused
  rcases ((Memory.reply_changed hchange).2.2 _ _ _ _ rfl).2 with hz | hz | hz
  · cases hz
  · exact hz rfl
  · exact hz _ hused rfl

end Confuse
