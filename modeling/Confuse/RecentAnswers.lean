import Confuse.InFlight
import Confuse.ReportedAnswers

/-!
# Recent answers

Whatever the file system does, on its own account too, an answer of a cache is one that the file system
has given and that was remembered less than its time to live ago.
-/

namespace Confuse

open Interaction PathResolver

/-! ## What is served -/

/-- What the path cache serves is an entry that is valid for the parent. -/
theorem PathResolver.written_of_cached {cf : CaseFold} {now : Instant} {r : PathResolver}
    {path : OsStr} {parent : INodeNo} {parentGeneration : Generation}
    {answer : Except Errno ResolvedEntry}
    (h : (r.cached cf now path parent parentGeneration).1 = some answer) :
    ∃ w, r.writtenAt (normalizePath cf path) = some w ∧ w.answer = answer ∧ w.parent = parent ∧
      now < w.expires := by
  unfold cached at h
  dsimp only at h
  by_cases hroot : normalizePath cf path = ['\\']
  · rw [if_pos hroot] at h
    cases h
  rw [if_neg hroot] at h
  unfold writtenAt
  rcases hlookup : r.paths.lookup (normalizePath cf path) with _ | ⟨e⟩ | ⟨e⟩
  · rw [hlookup] at h
    cases h
  · rw [hlookup] at h
    dsimp only at h
    split_ifs at h with hlive hmismatch hino
    have hparent : e.parent = parent := not_not.mp (not_or.mp hmismatch).1
    exact ⟨_, rfl, Option.some.inj h, hparent, hlive⟩
  · rw [hlookup] at h
    dsimp only at h
    split_ifs at h with hserves
    exact ⟨_, rfl, Option.some.inj h, hserves.2.1, hserves.1⟩

namespace History
variable {cf : CaseFold} {key : Str} {now : Instant} {start before h : History} {o : HistoryOp}
  {w : Written}

/-- The section that wrote an entry remembered what the entry says. -/
theorem pathTouch_repeats {old : Option Written} (h : pathTouch cf key now before old o = .writes w) :
    ∃ t path, o = .op (.table t) ∧ t.path? = some path ∧ normalizePath cf path = key ∧
      ((∃ entry ttl, t.repeats = some (.child w.parent w.name entry ttl) ∧ w.answer = .ok entry ∧
          w.expires = now + ttl.nanos) ∨
        ∃ ttl, t.repeats = some (.absent w.parent w.name) ∧ w.answer = .error ENOENT ∧
          negativeTtl before = some ttl ∧ w.expires = now + ttl.nanos) := by
  rcases pathTouch_writes h with
    ⟨record, hrecord, hzero, rfl⟩ | ⟨path, parent, parentGeneration, name, ttl, rfl, hnegative, rfl⟩
  · have hkey : normalizePath cf record.path = key := by
      by_contra hne
      rw [pathTouch_of_recordOf hrecord, PositivePathRecord.touch, if_neg hne] at h
      cases h
    unfold recordOf at hrecord
    split at hrecord
    · obtain rfl := Option.some.inj hrecord
      exact ⟨_, _, rfl, rfl, hkey, .inl ⟨_, _, rfl, rfl, rfl⟩⟩
    · obtain rfl := Option.some.inj hrecord
      exact ⟨_, _, rfl, rfl, hkey, .inl ⟨_, _, rfl, rfl, rfl⟩⟩
    · cases hrecord
  · have hkey : normalizePath cf path = key := by
      by_contra hne
      rw [pathTouch, if_neg hne] at h
      cases h
    exact ⟨_, path, rfl, rfl, hkey, .inr ⟨ttl, rfl, rfl, hnegative, rfl⟩⟩

/-- What a history has left at a key was written by one of its operations. -/
theorem written_source (hw : written cf key h = some w) :
    ∃ recorded o before old, (recorded, o) :: before <:+ h ∧
      pathTouch cf key recorded before old o = .writes w := by
  rcases left_lastTouch (pathTouch cf key) h with ⟨-, hnone⟩ | ⟨recorded, o, before, hlast, -, hleft⟩
  · cases hnone.symm.trans hw
  · exact ⟨recorded, o, before, _, hlast ▸ lastTouch_suffix _ h, Touch.result_none (hleft.symm.trans hw)⟩

theorem negativeTtl_logged (log : List Event) : negativeTtl (start.logged log) = negativeTtl start := by
  induction log using List.reverseRecOn with
  | nil => rfl
  | append_singleton log e ih =>
      rw [logged_append]
      cases e <;> exact ih

end History

/-! ## Runs -/

/-- At some time a section has remembered what the file system had reported before. -/
def Repeated (log : List Event) (recorded : Instant) (o : TableOp) (report : Report) : Prop :=
  o.repeats = some report ∧ ∃ first result rest,
    log = first ++ .table recorded o result :: rest ∧ ∃ event ∈ first, report ∈ event.reports

/-- A section that remembers something for the key of a path. -/
def TableOp.About (cf : CaseFold) (path : OsStr) (o : TableOp) : Prop :=
  o.path?.map (normalizePath cf) = some (normalizePath cf path)

/-- The history of a resolver that nothing was asked of. -/
def freshHistory (ttl : Duration) : History := [(0, .setNegativeTtl ttl)]

section Logs
variable {cf : CaseFold} {ttl : Duration} {before after : List Event} {now recorded : Instant}
  {o : TableOp} {report : Report} {earlier : History}

/-- A section in the history of a faithful log repeats a report. -/
theorem Faithful.repeated (h : Faithful (fun _ => False) (before ++ after))
    (hsuffix : (recorded, .op (.table o)) :: earlier <:+ (freshHistory ttl).logged before)
    (ho : o.repeats = some report) : Repeated before recorded o report := by
  rcases History.mem_logged hsuffix with hfresh | ⟨first, event, rest, rfl, hstep, -⟩
  · cases List.mem_singleton.mp (hfresh.subset List.mem_cons_self)
  · obtain ⟨result, rfl⟩ : ∃ result, event = .table recorded o result := by
      cases event with
      | table now o' result =>
          cases hstep
          exact ⟨result, rfl⟩
      | _ => cases hstep
    rw [List.append_assoc] at h
    exact ⟨ho, first, result, rest, rfl, h.reported ho⟩

theorem negativeTtl_earlier {ttl' : Duration}
    (hsuffix : (recorded, .op (.table o)) :: earlier <:+ (freshHistory ttl).logged before)
    (hnegative : History.negativeTtl earlier = some ttl') : ttl' = ttl ∧ ttl.isZero = false := by
  rcases History.mem_logged hsuffix with hfresh | ⟨first, event, rest, -, -, rfl⟩
  · cases List.mem_singleton.mp (hfresh.subset List.mem_cons_self)
  · rw [History.negativeTtl_logged] at hnegative
    change (if ttl.isZero then none else some ttl) = some ttl' at hnegative
    split_ifs at hnegative with hzero
    exact ⟨(Option.some.inj hnegative).symm, Bool.eq_false_iff.mpr hzero⟩

variable (hfaithful : Faithful (fun _ => False) (before ++ after))
include hfaithful

/-- A path that is served repeats a report about it. -/
theorem Faithful.cached_recent {path : OsStr} {parent : INodeNo} {parentGeneration : Generation}
    {answer : Except Errno ResolvedEntry}
    (hserved : (PathResolver.cached cf now (History.state cf ((freshHistory ttl).logged before)) path
      parent parentGeneration).1 = some answer) :
    ∃ recorded o name, o.About cf path ∧
      ((∃ entry life, answer = .ok entry ∧
          Repeated before recorded o (.child parent name entry life) ∧ now < recorded + life.nanos) ∨
        (answer = .error ENOENT ∧ Repeated before recorded o (.absent parent name) ∧
          ttl.isZero = false ∧ now < recorded + ttl.nanos)) := by
  obtain ⟨w, hwritten, rfl, rfl, hlive⟩ := written_of_cached hserved
  rw [History.state_written] at hwritten
  obtain ⟨recorded, step, earlier, old, hsuffix, htouch⟩ := History.written_source hwritten
  obtain ⟨o, path', rfl, hpath, hkey, hrepeats⟩ := History.pathTouch_repeats htouch
  have habout : o.About cf path := by
    rw [TableOp.About, hpath, Option.map_some, hkey]
  refine ⟨recorded, o, w.name, habout, ?_⟩
  rcases hrepeats with ⟨entry, life, ho, hanswer, hexpires⟩ | ⟨life, ho, hanswer, hnegative, hexpires⟩
  · exact .inl ⟨entry, life, hanswer, hfaithful.repeated hsuffix ho, hexpires ▸ hlive⟩
  · obtain ⟨rfl, hzero⟩ := negativeTtl_earlier hsuffix hnegative
    exact .inr ⟨hanswer, hfaithful.repeated hsuffix ho, hzero, hexpires ▸ hlive⟩

/-- Attributes that are served repeat a report about their inode. -/
theorem Faithful.cachedAttr_recent {i : INodeNo} {attr : FileAttr}
    (hordered : ((freshHistory ttl).logged before).Ordered now)
    (hserved : (PathResolver.cachedAttr now (History.state cf ((freshHistory ttl).logged before))
      i).1 = some attr) :
    ∃ recorded o life, Repeated before recorded o (.attr i attr life) ∧
      now < recorded + life.nanos := by
  obtain ⟨recorded, life, earlier, hlast, -, hlive⟩ :=
    (History.cachedAttr_iff_remembered cf i hordered attr).mp hserved
  have hsuffix := History.lastTouch_suffix (History.attrTouch cf i) ((freshHistory ttl).logged before)
  rw [hlast] at hsuffix
  exact ⟨recorded, _, life, hfaithful.repeated hsuffix rfl, hlive⟩

end Logs

section Runs
variable {β φ : Type} (pf : Platform) (h : Host β φ) (notices : Notices)

theorem World.log_faithful (ttl : Duration) (backend : β) (caller : φ) (callbacks : List Callback) :
    Faithful (fun _ => False)
      ((World.initial ttl backend caller).serve pf h notices callbacks).log := by
  obtain ⟨evs, hfaithful, hleads⟩ := World.serve_leads h notices (faithful_joins _)
    (Callback.faithful pf _) callbacks (World.initial ttl backend caller)
  rw [hleads.log]
  exact hfaithful

/-- The caches repeat what the file system has reported, for the time to live that came with it or is
configured. -/
theorem caches_repeat_reports (hclock : Monotone h.clock) (config : Config) (backend : β) (caller : φ)
    (callbacks : List Callback) (before after : List Event) (served : Event)
    (hlog : ((World.configured config backend caller).serve pf h notices callbacks).log
      = before ++ served :: after) :
    (∀ now path parent parentGeneration entry,
        served = .table now (.cached path parent parentGeneration) (some (.ok entry)) →
        ∃ recorded o name ttl, o.About pf.caseFold path ∧
          Repeated before recorded o (.child parent name entry ttl) ∧ now < recorded + ttl.nanos) ∧
      (∀ now path parent parentGeneration err,
        served = .table now (.cached path parent parentGeneration) (some (.error err)) →
        err = ENOENT ∧ config.negativeTtl.isZero = false ∧ ∃ recorded o name,
          o.About pf.caseFold path ∧ Repeated before recorded o (.absent parent name) ∧
          now < recorded + config.negativeTtl.nanos) ∧
      ∀ now i attr, served = .table now (.cachedAttr i) (some attr) →
        ∃ recorded o ttl, Repeated before recorded o (.attr i attr ttl) ∧
          now < recorded + ttl.nanos := by
  rw [World.configured_eq] at hlog
  have hfaithful := World.log_faithful pf h notices config.negativeTtl backend caller callbacks
  have hlegal := World.log_legal pf h notices config.negativeTtl backend caller callbacks
  rw [hlog] at hfaithful hlegal
  obtain ⟨-, hserved, -⟩ := legal_append.mp hlegal
  have hstate : History.state pf.caseFold ((freshHistory config.negativeTtl).logged before)
      = replay pf.caseFold ((default : PathResolver).setNegativeTtl config.negativeTtl) before :=
    History.state_logged before
  rw [← hstate] at hserved
  refine ⟨?_, ?_, ?_⟩
  · rintro now path parent parentGeneration entry rfl
    obtain ⟨recorded, o, name, habout, ⟨entry', ttl, heq, hrepeated, hlive⟩ | ⟨heq, -⟩⟩ :=
      hfaithful.cached_recent (Eq.symm hserved)
    · cases heq
      exact ⟨recorded, o, name, ttl, habout, hrepeated, hlive⟩
    · cases heq
  · rintro now path parent parentGeneration err rfl
    obtain ⟨recorded, o, name, habout, ⟨entry', ttl, heq, -⟩ | ⟨heq, hrepeated, hzero, hlive⟩⟩ :=
      hfaithful.cached_recent (Eq.symm hserved)
    · cases heq
    · cases heq
      exact ⟨rfl, hzero, recorded, o, name, habout, hrepeated, hlive⟩
  · rintro now i attr rfl
    have htimely : (World.initial config.negativeTtl backend caller).Timely
        (freshHistory config.negativeTtl) h := ⟨Nat.zero_le _, trivial⟩
    have hordered : ((World.initial config.negativeTtl backend caller).serve pf h notices
        callbacks).Timely (freshHistory config.negativeTtl) h := htimely.serve hclock callbacks
    exact hfaithful.cachedAttr_recent (History.Ordered.of_logged hordered _ after hlog rfl)
      (Eq.symm hserved)

end Runs

/-! ## A missing name -/

/-- Missing names are remembered for half a second. -/
def halfSecond : Config := ⟨[.custom "negative_ttl_ms=500".toList], .all, none, false⟩

def nothingThere : (c : FsCall) → c.Reply
  | .lookup .. => (some (.error ENOENT) : Reply ReplyEntryPayload)
  | c => c.unanswered

/-- The file is asked for twice, and missing from the cache the second time. -/
def askedTwice : World Unit Unit :=
  (World.configured halfSecond () ()).serve .ascii (.stateless nothingThere) undisturbed
    [.getFileInformation fileF {}, .getFileInformation fileF {}]

theorem askedTwice_log : askedTwice.log = askedTwice.log.take 6 ++
    .table 0 (.cached fileF.path .ROOT ⟨0⟩) (some (.error ENOENT)) :: askedTwice.log.drop 7 := rfl

theorem caches_repeat_reports_halfSecond :
    ∃ recorded o name, o.About Platform.ascii.caseFold fileF.path ∧
      Repeated (askedTwice.log.take 6) recorded o (.absent .ROOT name) ∧
      0 < recorded + halfSecond.negativeTtl.nanos := by
  obtain ⟨-, -, hrecent⟩ := (caches_repeat_reports .ascii (.stateless nothingThere) undisturbed
    monotone_const halfSecond () () _ _ _ _ askedTwice_log).2.1 0 _ _ _ _ rfl
  exact hrecent

end Confuse
