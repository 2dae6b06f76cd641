import Confuse.ListingPlans
import Confuse.PanickingRuns
import Confuse.WideStrings

/-!
# Listings with and without `readdirplus`

Where the file system has no `readdirplus`, a listing with a pattern reads plain entries and asks for
the attributes of each. The caller cannot tell which of the two it was, provided that the attributes
are the same. But only the first one records the entries, so it alone may panic on their times to live.
-/

namespace Confuse

open Interaction

def FsCall.isListing : FsCall → Bool
  | .readdir .. | .readdirplus .. => true
  | _ => false

/-- The entry without what only `readdirplus` reports. -/
def DirectoryPlusEntryPayload.plain (entry : DirectoryPlusEntryPayload) : DirectoryEntryPayload where
  ino := entry.ino
  offset := entry.offset
  kind := entry.attr.kind
  name := entry.name

/-- The second host lacks `readdirplus` and lists with `readdir` what the first one lists with it; the
attributes of the entries are those that `getattr` answers. -/
structure Host.FallsBackTo {β φ : Type} (h h' : Host β φ)
    (listing : Request → INodeNo → FileHandle → UInt64 → ReplyDirectoryPlus) : Prop where
  same : h' = { h with reply := h'.reply }
  others : ∀ c b, c.isListing = false → h'.reply c b = h.reply c b
  readdirplus : ∀ req ino fh offset b,
    (h.reply (.readdirplus req ino fh offset) b).1 = listing req ino fh offset
  supported : ∀ req ino fh offset, isUnsupported (listing req ino fh offset).status = false
  noReaddirplus : ∀ req ino fh offset b, ReplyDirectoryPlus.status
    (h'.reply (.readdirplus req ino fh offset) b).1 = some (.error ENOSYS)
  readdir : ∀ req ino fh offset b, (h'.reply (.readdir req ino fh offset) b).1
    = (⟨(listing req ino fh offset).entries.map DirectoryPlusEntryPayload.plain,
      (listing req ino fh offset).status⟩ : ReplyDirectory)
  getattr : ∀ req ino fh offset, ∀ entry ∈ (listing req ino fh offset).entries, ∀ req' b,
    (Reply.toOption (α := ReplyAttrPayload) (h.reply (.getattr req' entry.ino none) b).1).map
      ReplyAttrPayload.attr = some entry.attr

/-- The record is the same whichever call the attributes come from. -/
theorem fullData_plain (entry : DirectoryPlusEntryPayload) (fileName : U16CStr) :
    fullData entry.plain (some entry.attr) fileName = plusData entry.attr fileName := rfl

/-- The path of an entry has a UTF-16 C string exactly when its name has one. -/
theorem fromStr_joinChildPath_eq_none_iff (parent : U16CStr) (name : OsStr) :
    U16CStr.fromStr (joinChildPath parent name) = none
      ↔ U16CStr.fromStr name.toStringLossy = none := by
  have hmem : '\x00' ∈ joinChildPath parent name ↔ '\x00' ∈ name.toStringLossy := by
    have hbase := parent.nul_not_mem_toStringLossy
    unfold joinChildPath
    dsimp only
    split_ifs <;> simp [hbase]
  unfold U16CStr.fromStr
  by_cases hnul : '\x00' ∈ name.toStringLossy
  · rw [dif_pos hnul, dif_pos (hmem.mpr hnul)]
  · rw [dif_neg hnul, dif_neg (hmem.not.mpr hnul)]
    simp

/-- The two loops have the same plan. -/
theorem readdirPlan_plain (directory : U16CStr) (shows : U16CStr → Bool)
    {attrs : INodeNo → Option FileAttr} {entries : List DirectoryPlusEntryPayload}
    (hattrs : ∀ entry ∈ entries, attrs entry.ino = some entry.attr) :
    readdirPlan shows fullData attrs (entries.map DirectoryPlusEntryPayload.plain)
      = readdirplusPlan directory shows entries := by
  induction entries with
  | nil => rfl
  | cons entry rest ih =>
      have hrest := ih fun entry' hentry' => hattrs entry' (List.mem_cons_of_mem entry hentry')
      have hpath := fromStr_joinChildPath_eq_none_iff directory entry.name
      rw [List.map_cons, readdirPlan, readdirplusPlan, hrest]
      cases hname : U16CStr.fromStr entry.name.toStringLossy with
      | none =>
          have hplain : U16CStr.fromStr entry.plain.name.toStringLossy = none := hname
          rw [hpath.mpr hname, hplain]
      | some fileName =>
          obtain ⟨path, hpath⟩ := Option.ne_none_iff_exists'.mp
            (hpath.not.mpr (hname ▸ Option.some_ne_none fileName))
          have hattr : fullData entry.plain (attrs entry.ino) fileName
              = plusData entry.attr fileName := by
            rw [hattrs entry List.mem_cons_self, fullData_plain]
          have hplain : U16CStr.fromStr entry.plain.name.toStringLossy = some fileName := hname
          have hino : entry.plain.ino = entry.ino := rfl
          have hoffset : entry.plain.offset = entry.offset := rfl
          rw [hpath, hplain]
          dsimp only
          rw [hino, hoffset, hattr]

namespace World
variable {β φ : Type} (pf : Platform) (notices : Notices)

/-- Walks do not list. -/
theorem machine_walk_congr {h h' : Host β φ}
    {listing : Request → INodeNo → FileHandle → UInt64 → ReplyDirectoryPlus}
    (hback : h.FallsBackTo h' listing) {e : Effect} (he : e.isWalk = true) (w : World β φ) :
    machine pf h notices e w = machine pf h' notices e w := by
  obtain ⟨reply', rfl⟩ : ∃ reply', h' = { h with reply := reply' } := ⟨_, hback.same⟩
  cases e with
  | fs c =>
      have hreply : reply' c = h.reply c := funext fun b => hback.others c b (by
        cases c <;> first | rfl | cases he)
      have hcall : ∀ w' : World β φ, w'.call h c = w'.call { h with reply := reply' } c := by
        intro w'
        unfold World.call
        dsimp only
        rw [hreply]
      exact congrArg (fun answer : c.Reply × World β φ =>
        (answer.1, { answer.2 with steps := answer.2.steps + 1 })) (hcall _)
  | table o => rfl
  | deliver req o => rfl
  | _ => cases he

/-- A listing with a pattern that does not panic shows the caller the same, stores the same offset and
returns the same with `readdirplus` as without. -/
theorem view_fallback {h h' : Host β φ}
    {listing : Request → INodeNo → FileHandle → UInt64 → ReplyDirectoryPlus}
    (hback : h.FallsBackTo h' listing) (fileName pattern : U16CStr) (context : AdapterContext)
    (w : World β φ) :
    w.view pf h notices (findFilesWithPattern pf fileName pattern context)
      = w.view pf h' notices (findFilesWithPattern pf fileName pattern context) := by
  rw [findFilesWithPattern_eq_listDirectory]
  set req := requestFromIds context.requestIds with hreq
  set pathKey := fileName.toStringLossy with hpathKey
  have hresolve := (directoryIno_walks pf req pathKey context).run_congr
    (fun e s he => machine_walk_congr pf notices hback he s) w
  cases hino : ((directoryIno pf req pathKey context).run (machine pf h notices) w).1 with
  | error err =>
      have hino' := (congrArg Prod.fst hresolve).symm.trans hino
      rw [view_listDirectory_error pf h notices _ _ _ _ hino,
        view_listDirectory_error pf h' notices _ _ _ _ hino']
  | ok ino =>
      have hino' := (congrArg Prod.fst hresolve).symm.trans hino
      set offset := w.requestAt pathKey with hoffset
      set reply := listing req ino context.fh offset with hreply
      have hattrs : ∀ entry ∈ reply.entries, ∀ req' b, (Reply.toOption (α := ReplyAttrPayload)
          (h'.reply (.getattr req' entry.ino none) b).1).map ReplyAttrPayload.attr
            = some entry.attr := by
        intro entry hentry req' b
        have hsame := hback.others (.getattr req' entry.ino none) b rfl
        exact (congrArg (fun answer : Reply ReplyAttrPayload × β =>
          answer.1.toOption.map ReplyAttrPayload.attr) hsame).trans
            (hback.getattr req ino context.fh offset entry hentry req' b)
      let attrs : INodeNo → Option FileAttr := fun i => (Reply.toOption (α := ReplyAttrPayload)
        (h'.reply (.getattr req i none) w.backend).1).map ReplyAttrPayload.attr
      have hreports : h'.Reports attrs (reply.entries.map DirectoryPlusEntryPayload.plain) := by
        intro entry hentry req' b
        obtain ⟨plus, hplus, rfl⟩ := List.mem_map.mp hentry
        exact (hattrs plus hplus req' b).trans (hattrs plus hplus req w.backend).symm
      let shows : U16CStr → Bool := fun name => pf.isNameInExpression pattern name true
      have hplan : readdirPlan shows fullData attrs
            (reply.entries.map DirectoryPlusEntryPayload.plain)
          = readdirplusPlan fileName shows reply.entries :=
        readdirPlan_plain fileName shows fun entry hentry => hattrs entry hentry req w.backend
      have hplus := listMatchingEntries_plus_follows pf notices req fileName pattern
        (hback.readdirplus _ ino context.fh offset) (hback.supported req ino context.fh offset)
      have hplain := listMatchingEntries_fallback_follows pf notices req fileName pattern
        (fun b => by rw [hback.noReaddirplus]; rfl)
        (hback.readdir _ ino context.fh offset) hreports
      dsimp only at hplain
      rw [hplan] at hplain
      have hfill : h'.fillFindData = h.fillFindData := by rw [hback.same]
      rw [view_listDirectory pf h notices _ _ _ _ hino hplus,
        view_listDirectory pf h' notices _ _ _ _ hino' hplain, hfill]

/-! ## Listings that panic -/

/-- Only sections compute expiries. -/
theorem lasts_of_untabled {α : Type} {p : Routine α}
    (hp : p.Performs fun e : Effect => ∀ o, e ≠ .table o) (h : Host β φ) (w : World β φ) :
    w.Lasts pf h notices p := by
  refine hp.runMeets (fun e w he => ?_) w
  cases e with
  | table o => exact absurd rfl (he o)
  | _ => trivial

/-- The loop over plain entries asks for attributes and remembers nothing. -/
theorem emitReaddirPatternEntries_untabled (req : Request) (pattern : U16CStr)
    (emittedOffset : Option Int64) (entries : List DirectoryEntryPayload) :
    (emitReaddirPatternEntries pf req pattern emittedOffset entries).Performs
      fun e : Effect => ∀ o, e ≠ .table o := by
  induction entries generalizing emittedOffset with
  | nil => exact .pure _
  | cons entry rest ih =>
      unfold emitReaddirPatternEntries
      cases U16CStr.fromStr entry.name.toStringLossy with
      | none => exact .pure _
      | some fileName =>
          dsimp only
          split_ifs
          · exact ih _
          · refine .bind (.bind (.perform fun o => by simp) fun status => ?_) fun attr =>
              .bind (.perform fun o => by simp) fun accepted => ?_
            · rcases status with _ | ⟨err⟩ | ⟨payload⟩ <;> exact .pure _
            · cases accepted with
              | true => exact ih _
              | false => exact .pure _

theorem findFilesFallback_untabled (req : Request) (pathKey : Str) (pattern : U16CStr)
    (ino : INodeNo) (fh : FileHandle) (reqOffset : Int64) :
    (findFilesFallback pf req pathKey pattern ino fh reqOffset).Performs
      fun e : Effect => ∀ o, e ≠ .table o := by
  refine .bind (.perform fun o => by simp) fun fallback => .bind (.perform fun o => by simp) fun _ =>
    .bind (emitReaddirPatternEntries_untabled pf req pattern none _) fun emitted => ?_
  cases emitted with
  | error status => exact .pure _
  | ok emittedOffset => exact .bind (.perform fun o => by simp) fun _ => .pure _

theorem unsupported_readdirplus {h h' : Host β φ}
    {listing : Request → INodeNo → FileHandle → UInt64 → ReplyDirectoryPlus}
    (hback : h.FallsBackTo h' listing) (req : Request) (ino : INodeNo) (fh : FileHandle)
    (offset : UInt64) (w : World β φ) : isUnsupported (ReplyDirectoryPlus.status
      ((Routine.fs (.readdirplus req ino fh offset)).run (machine pf h' notices) w).1) = true := by
  have hreply := machine_fs_reply pf h' notices (.readdirplus req ino fh offset) w
  refine (congrArg (fun answer : ReplyDirectoryPlus => isUnsupported answer.status) hreply).trans ?_
  rw [hback.noReaddirplus]
  rfl

/-- The listing without `readdirplus` computes the expiries of the walk to the directory alone. -/
theorem lasts_fallback {h h' : Host β φ}
    {listing : Request → INodeNo → FileHandle → UInt64 → ReplyDirectoryPlus}
    (hback : h.FallsBackTo h' listing) {fileName pattern : U16CStr} {context : AdapterContext}
    {w : World β φ}
    (hlasts : w.Lasts pf h notices (findFilesWithPattern pf fileName pattern context)) :
    w.Lasts pf h' notices (findFilesWithPattern pf fileName pattern context) := by
  have hwalks := directoryIno_walks pf (requestFromIds context.requestIds) fileName.toStringLossy
    context
  have hclock : Effect.Lasts h' = Effect.Lasts h := by rw [hback.same]; rfl
  have hdirectory := (hwalks.runMeets_congr (Effect.Lasts h)
    (fun e s he => machine_walk_congr pf notices hback he s) w).mp (Prog.runMeets_bind.mp hlasts).1
  refine Prog.runMeets_bind.mpr ⟨hclock ▸ hdirectory, ?_⟩
  cases ((directoryIno pf (requestFromIds context.requestIds) fileName.toStringLossy context).run
    (machine pf h' notices) w).1 with
  | error status => trivial
  | ok ino =>
      refine Prog.runMeets_bind.mpr ⟨⟨trivial, trivial⟩, Prog.runMeets_bind.mpr
        ⟨⟨trivial, trivial⟩, Prog.runMeets_bind.mpr ⟨⟨trivial, trivial⟩, ?_⟩⟩⟩
      split_ifs with hunsupported
      · exact lasts_of_untabled pf notices (findFilesFallback_untabled ..) h' _
      · exact absurd (unsupported_readdirplus pf notices hback ..) hunsupported

/-- What the caller sees of a listing that returned. -/
def seen (w : World β φ) (out : Except NtStatus Unit × World β φ) : CallerView φ where
  result := out.1
  offered := offered (out.2.log.drop w.log.length)
  caller := out.2.caller
  openState := out.2.openState

/-- A listing with a pattern returns the same, shows the caller the same and stores the same offset
with `readdirplus` as without exactly when every expiry that it computes with `readdirplus` is an
instant. -/
theorem readdirplus_fallback_agrees_iff {h h' : Host β φ}
    {listing : Request → INodeNo → FileHandle → UInt64 → ReplyDirectoryPlus}
    (hback : h.FallsBackTo h' listing) (fileName pattern : U16CStr) (context : AdapterContext)
    (w : World β φ) :
    (∃ out out', w.attempt pf h notices (findFilesWithPattern pf fileName pattern context) = .ok out ∧
        w.attempt pf h' notices (findFilesWithPattern pf fileName pattern context) = .ok out' ∧
        w.seen out = w.seen out') ↔
      w.Lasts pf h notices (findFilesWithPattern pf fileName pattern context) := by
  constructor
  · rintro ⟨out, -, hout, -, -⟩
    exact ((panickingMachine_stops pf h notices).attempt_eq_ok_iff.mp hout).1
  · intro hlasts
    exact ⟨_, _, attempt_of_lasts hlasts, attempt_of_lasts (lasts_fallback pf notices hback hlasts),
      view_fallback pf notices hback fileName pattern context w⟩

/-- A directory with one entry, whose attributes come with it. -/
def listsOnePlus (attr : FileAttr) (ttl : Duration) : (c : FsCall) → c.Reply
  | .readdirplus .. =>
      (⟨[⟨attr.ino, 1, .new ['g'], ttl, attr, ⟨0⟩⟩], some (.ok ())⟩ : ReplyDirectoryPlus)
  | .getattr .. => (some (.ok ⟨attr, .fromSecs 1⟩) : Reply ReplyAttrPayload)
  | c => c.unanswered

/-- The same directory without `readdirplus`. -/
def listsOneFallback (attr : FileAttr) : (c : FsCall) → c.Reply
  | .readdirplus .. => (⟨[], some (.error ENOSYS)⟩ : ReplyDirectoryPlus)
  | .readdir .. => (⟨[⟨attr.ino, 1, attr.kind, .new ['g']⟩], some (.ok ())⟩ : ReplyDirectory)
  | c => listsOnePlus attr (.fromSecs 1) c

/-- The clock shows the same instant at all times. -/
def hostAt (now : Instant) (answer : (c : FsCall) → c.Reply) : Host Unit Unit :=
  { Host.stateless answer with clock := fun _ => now }

theorem listsOne_fallsBack (now : Instant) (attr : FileAttr) (ttl : Duration) :
    (hostAt now (listsOnePlus attr ttl)).FallsBackTo (hostAt now (listsOneFallback attr))
      fun _ _ _ _ => ⟨[⟨attr.ino, 1, .new ['g'], ttl, attr, ⟨0⟩⟩], some (.ok ())⟩ where
  same := rfl
  others c _ hc := by cases c <;> first | rfl | cases hc
  readdirplus _ _ _ _ _ := rfl
  supported _ _ _ _ := rfl
  noReaddirplus _ _ _ _ _ := rfl
  readdir _ _ _ _ _ := rfl
  getattr _ _ _ _ entry hentry _ _ := by
    cases List.mem_singleton.mp hentry
    rfl

theorem readdirplus_fallback_agrees_one :
    let attr := FileAttr.plain ⟨6⟩ .regularFile
    let call := findFilesWithPattern .ascii fileF fileF directoryF
    (∃ out out',
        World.mounted.attempt .ascii (hostAt 1 (listsOnePlus attr (.fromSecs 1))) undisturbed call
          = .ok out ∧
        World.mounted.attempt .ascii (hostAt 1 (listsOneFallback attr)) undisturbed call = .ok out' ∧
        World.mounted.seen out = World.mounted.seen out') ↔
      World.mounted.Lasts .ascii (hostAt 1 (listsOnePlus attr (.fromSecs 1))) undisturbed call :=
  readdirplus_fallback_agrees_iff .ascii undisturbed
    (listsOne_fallsBack 1 (.plain ⟨6⟩ .regularFile) (.fromSecs 1)) fileF fileF directoryF World.mounted

/-- An entry that is valid forever is listed by `readdir` and makes the listing by `readdirplus`
panic. -/
theorem entry_valid_forever_panics :
    let attr := FileAttr.plain ⟨6⟩ .regularFile
    let h := hostAt 1 (listsOnePlus attr PathResolver.forever)
    let h' := hostAt 1 (listsOneFallback attr)
    let call := findFilesWithPattern .ascii fileF fileF directoryF
    (∃ listing, h.FallsBackTo h' listing) ∧
      (∃ out, World.mounted.attempt .ascii h' undisturbed call = .ok out ∧ out.1 = .ok () ∧
        (World.mounted.seen out).offered.length = 1) ∧
      ∃ left, World.mounted.attempt .ascii h undisturbed call = .error left := by
  intro attr h h' call
  refine ⟨⟨_, listsOne_fallsBack 1 attr PathResolver.forever⟩,
    ⟨_, attempt_of_lasts (by decide), rfl, rfl⟩, ?_⟩
  exact (panickingMachine_stops _ _ _).attempt_of_not_meets (by decide)

end World
end Confuse
