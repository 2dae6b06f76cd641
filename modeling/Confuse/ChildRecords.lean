import Confuse.NotifierLedger

/-!
# Recording the entries of a listing

`readdirplus` returns attributes with the names, and each entry is recorded under the path that
`join_child_path` builds. The path is cut again when it is turned into a key, so the key is that of the
child when the name is a path component. The other names are `.` and `..`, which stand for the directory
and its parent, names with a separator and names that end in a colon.
-/

namespace Confuse

open PathResolver

/-- `remember_created_path` with the drain at its end. -/
def PathResolver.rememberCreated (cf : CaseFold) (now : Instant) (r : PathResolver)
    (created : CreatedPath) : Forgets × PathResolver :=
  ((TableOp.rememberCreated created).apply cf now r).2.takePendingForgets

/-- A key of a path whose components are those of the directory and then the name. -/
def IsChildKey (cf : CaseFold) (directory : U16CStr) (name : OsStr) (key : Str) : Prop :=
  ∃ path, normalizedComponents path
      = normalizedComponents (.new directory.toStringLossy) ++ [name.toStringLossy] ∧
    key = normalizePath cf path

/-- What an operation on the resolver returns, hands out and leaves under some keys. -/
structure AgreeOn (keys : Str → Prop) (a b : Forgets × PathResolver) : Prop where
  forgets : a.1 = b.1
  inodes : a.2.inodes = b.2.inodes
  pendingForgets : a.2.pendingForgets = b.2.pendingForgets
  paths : ∀ key, keys key → a.2.paths.lookup key = b.2.paths.lookup key

/-- Recording the entry of a name changes no cached path but the child's, and what it does depends
on no other. -/
structure RecordsOnlyChild (cf : CaseFold) (directory : U16CStr) (name : OsStr) : Prop where
  writes : ∀ created : CreatedPath,
    U16CStr.fromStr (joinChildPath directory name) = some created.path → created.name = name →
      ∀ (now : Instant) (r : PathResolver), Reachable cf r → ∀ key,
        ¬ IsChildKey cf directory name key →
          (r.rememberCreated cf now created).2.paths.lookup key = r.paths.lookup key
  reads : ∀ created : CreatedPath,
    U16CStr.fromStr (joinChildPath directory name) = some created.path → created.name = name →
      ∀ (now : Instant) (r : PathResolver), Reachable cf r → ∀ paths : KeyedMap Str PathCacheEntry,
        (∀ key, IsChildKey cf directory name key → paths.lookup key = r.paths.lookup key) →
          AgreeOn (IsChildKey cf directory name)
            (PathResolver.rememberCreated cf now { r with paths } created)
            (r.rememberCreated cf now created)

section Frame
variable {cf : CaseFold} {now : Instant} {r : PathResolver}

theorem rememberPositive_lookup_of_ne {record : PositivePathRecord} {key : Str}
    (hkey : key ≠ normalizePath cf record.path) :
    (r.rememberPositive cf now record).2.paths.lookup key = r.paths.lookup key := by
  unfold rememberPositive
  dsimp only
  by_cases hzero : record.ttl.isZero = false
  · rw [if_pos hzero, rememberPositiveInode_paths]
    unfold storePositivePathEntry
    rw [AList.lookup_insert_ne hkey, takeReusableOutstanding_paths, AList.lookup_erase_ne hkey]
  · rw [if_neg hzero, retainLiveInodes_paths, pushForget_paths, releaseOutstanding_paths,
      takeReusableOutstanding_paths, AList.lookup_erase_ne hkey]

/-! ## The other entries are not looked at -/

variable (r) (paths : KeyedMap Str PathCacheEntry)

/-- The resolver with other path entries. -/
abbrev PathResolver.withPaths : PathResolver := { r with paths }

theorem releaseLookup_withPaths (e : INodeNo × ℕ) :
    (r.withPaths paths).releaseLookup e = (r.releaseLookup e).withPaths paths := by
  unfold releaseLookup
  cases r.inodes.lookup e.1 <;> rfl

theorem releaseOutstanding_withPaths (outstanding : Forgets) :
    (r.withPaths paths).releaseOutstanding now outstanding
      = (r.releaseOutstanding now outstanding).withPaths paths := by
  unfold releaseOutstanding
  have hfold : outstanding.foldl releaseLookup (r.withPaths paths)
      = (outstanding.foldl releaseLookup r).withPaths paths := by
    induction outstanding generalizing r with
    | nil => rfl
    | cons e outstanding ih => rw [List.foldl_cons, List.foldl_cons, releaseLookup_withPaths, ih]
  rw [hfold]
  rfl

variable {r paths}

/-- Taking the references of a replaced entry looks at the entry under its key. -/
theorem takeReusableOutstanding_withPaths {key : Str} (hkey : paths.lookup key = r.paths.lookup key)
    (ino : INodeNo) (ttl : Duration) :
    (r.withPaths paths).takeReusableOutstanding now key ino ttl
      = ((r.takeReusableOutstanding now key ino ttl).1,
        (r.takeReusableOutstanding now key ino ttl).2.withPaths (paths.erase key)) := by
  unfold takeReusableOutstanding
  have herase : (r.withPaths paths).removePath key
      = (r.removePath key).withPaths (paths.erase key) := rfl
  dsimp only
  rw [hkey, herase]
  rcases r.paths.lookup key with _ | ⟨e⟩ | ⟨e⟩
  · rfl
  · dsimp only
    by_cases hreuse : e.ino = ino ∧ ttl.isZero = false
    · rw [if_pos hreuse, if_pos hreuse]
    · rw [if_neg hreuse, if_neg hreuse, releaseOutstanding_withPaths]
  · rfl

theorem rememberPositive_withPaths (now : Instant) {record : PositivePathRecord}
    (hkey : paths.lookup (normalizePath cf record.path)
      = r.paths.lookup (normalizePath cf record.path)) :
    ∃ paths', ((r.withPaths paths).rememberPositive cf now record).2
        = (r.rememberPositive cf now record).2.withPaths paths' ∧
      paths'.lookup (normalizePath cf record.path)
        = (r.rememberPositive cf now record).2.paths.lookup (normalizePath cf record.path) := by
  unfold rememberPositive
  dsimp only
  rw [takeReusableOutstanding_withPaths hkey]
  by_cases hzero : record.ttl.isZero = false
  · rw [if_pos hzero, if_pos hzero]
    refine ⟨_, rfl, ?_⟩
    simp [storePositivePathEntry, AList.lookup_insert]
  · rw [if_neg hzero, if_neg hzero, releaseOutstanding_withPaths]
    refine ⟨_, rfl, ?_⟩
    simp [AList.lookup_erase]

end Frame

variable {cf : CaseFold} {directory : U16CStr} {name : OsStr}

/-- A child key names a component, and there is one such key. -/
theorem isChildKey_iff {key : Str} :
    IsChildKey cf directory name key ↔ IsComponent name.toStringLossy ∧
      key = normalizePath cf (.new (joinChildPath directory name)) := by
  constructor
  · rintro ⟨path, hpath, rfl⟩
    have hname : IsComponent name.toStringLossy :=
      isComponent_normalizedComponents path _ (by rw [hpath]; simp)
    refine ⟨hname, ?_⟩
    rw [normalizePath_eq, normalizePath_eq, keyOf, keyOf, hpath,
      normalizedComponents_joinChildPath directory hname]
  · rintro ⟨hname, rfl⟩
    exact ⟨_, normalizedComponents_joinChildPath directory hname, rfl⟩

/-- The key under which an entry is recorded. -/
theorem normalizePath_record {created : CreatedPath}
    (hpath : U16CStr.fromStr (joinChildPath directory name) = some created.path)
    (parentGeneration : Generation) :
    normalizePath cf (created.record parentGeneration).path
      = normalizePath cf (.new (joinChildPath directory name)) := by
  rw [CreatedPath.record, U16CStr.toStringLossy_fromStr hpath]

theorem recordsOnlyChild_of_component (hname : IsComponent name.toStringLossy) :
    RecordsOnlyChild cf directory name where
  writes := by
    intro created hpath _ now r _ key hkey
    refine rememberPositive_lookup_of_ne fun hrecord => hkey ?_
    rw [normalizePath_record hpath] at hrecord
    exact isChildKey_iff.mpr ⟨hname, hrecord⟩
  reads := by
    intro created hpath _ now r _ paths hpaths
    have hrecord : normalizePath cf (created.record (r.generationFor created.parent)).path
        = normalizePath cf (.new (joinChildPath directory name)) := normalizePath_record hpath _
    have hkey := hpaths _ (isChildKey_iff.mpr ⟨hname, hrecord⟩)
    obtain ⟨paths', hresult, hlookup⟩ := rememberPositive_withPaths now hkey
    have hstep : PathResolver.rememberCreated cf now { r with paths } created
        = ((r.withPaths paths).rememberPositive cf now
            (created.record (r.generationFor created.parent))).2.takePendingForgets := rfl
    rw [hstep, hresult]
    refine ⟨rfl, rfl, rfl, fun key hchild => ?_⟩
    rw [(isChildKey_iff.mp hchild).2, ← hrecord]
    exact hlookup

/-- An entry with some time to live that is recorded in an empty cache is found under its key. -/
theorem rememberCreated_default (created : CreatedPath) (httl : created.ttl.isZero = false) :
    ((default : PathResolver).rememberCreated cf 0 created).2.paths.lookup
      (normalizePath cf (.new created.path.toStringLossy)) ≠ none := by
  have hpaths : ((default : PathResolver).rememberCreated cf 0 created).2.paths
      = ((default : PathResolver).rememberPositive cf 0 (created.record ⟨0⟩)).2.paths := rfl
  rw [hpaths]
  unfold rememberPositive
  dsimp only
  rw [if_pos (show (created.record ⟨0⟩).ttl.isZero = false from httl), rememberPositiveInode_paths]
  unfold storePositivePathEntry CreatedPath.record
  rw [AList.lookup_insert]
  simp

/-- Only a name that is a path component, or that has no path at all, is recorded as the child. -/
theorem recordsOnlyChild_iff (cf : CaseFold) (directory : U16CStr) (name : OsStr) :
    RecordsOnlyChild cf directory name
      ↔ U16CStr.fromStr (joinChildPath directory name) = none ∨ IsComponent name.toStringLossy := by
  constructor
  · intro h
    by_contra hnot
    obtain ⟨hpath, hname⟩ := not_or.mp hnot
    obtain ⟨path, hpath⟩ := Option.ne_none_iff_exists'.mp hpath
    let created : CreatedPath :=
      { path, parent := .ROOT, name, attr := .plain ⟨5⟩ .directory, generation := ⟨1⟩
        ttl := .fromSecs 1 }
    have hwrites := h.writes created hpath rfl 0 default Reachable.default
      (normalizePath cf (.new path.toStringLossy)) fun hchild => hname (isChildKey_iff.mp hchild).1
    exact rememberCreated_default created rfl hwrites
  · rintro (hnone | hname)
    · exact ⟨fun created hpath => absurd (hnone.symm.trans hpath) (by simp),
        fun created hpath => absurd (hnone.symm.trans hpath) (by simp)⟩
    · exact recordsOnlyChild_of_component hname

/-- The entry `.` of the listing of `\f`. -/
def dotOfF (path : U16CStr) : CreatedPath where
  path := path
  parent := ⟨5⟩
  name := .new ['.']
  attr := .plain ⟨5⟩ .directory
  generation := ⟨1⟩
  ttl := .fromSecs 1

/-- The directory's own entry becomes that of a child of itself. -/
theorem dot_replaces_directory :
    ¬ ∀ (cf : CaseFold) (directory : U16CStr) (name : OsStr), RecordsOnlyChild cf directory name := by
  intro h
  obtain ⟨directory, hdirectory⟩ : ∃ directory, U16CStr.fromStr ['\\', 'f'] = some directory := ⟨_, rfl⟩
  obtain ⟨path, hpath⟩ : ∃ path, U16CStr.fromStr ['\\', 'f', '\\', '.'] = some path := ⟨_, rfl⟩
  have hjoin : joinChildPath directory (.new ['.']) = ['\\', 'f', '\\', '.'] := by
    rw [joinChildPath, U16CStr.toStringLossy_fromStr hdirectory]
    rfl
  have hkey : ¬ IsChildKey CharFold.ascii.toCaseFold directory (.new ['.']) ['\\', 'f'] :=
    fun hchild => (isChildKey_iff.mp hchild).1.notDot rfl
  have hwrites := (h CharFold.ascii.toCaseFold directory (.new ['.'])).writes (dotOfF path)
    (by rw [hjoin]; exact hpath) rfl 1 _ reachable_afterLookupOfF ['\\', 'f'] hkey
  obtain rfl : path = _ := (Option.some.inj hpath).symm
  revert hwrites
  decide

end Confuse
