import Confuse.ListingPlans

/-!
# Listings with and without a pattern

A directory may be listed with either callback. On a file system without `readdirplus` both read the
same entries and ask for the same attributes, but only `find_files_with_pattern` puts the size and the
times into the records.
-/

namespace Confuse

open Interaction

/-- A file system without `readdirplus`, whose directories and attributes stay as they are. -/
structure Host.ListsWithoutPlus {β φ : Type} (h : Host β φ)
    (listing : INodeNo → FileHandle → UInt64 → ReplyDirectory) (attrs : INodeNo → Option FileAttr) :
    Prop where
  noReaddirplus : ∀ req ino fh offset b, isUnsupported (ReplyDirectoryPlus.status
    (h.reply (.readdirplus req ino fh offset) b).1) = true
  readdir : ∀ req ino fh offset b,
    (h.reply (.readdir req ino fh offset) b).1 = listing ino fh offset
  getattr : ∀ req ino b, (Reply.toOption (α := ReplyAttrPayload)
    (h.reply (.getattr req ino none) b).1).map ReplyAttrPayload.attr = attrs ino

/-- No attributes, or those of an empty file without times. -/
def Bare : Option FileAttr → Prop
  | none => True
  | some attr => attr.size = 0 ∧ attr.ctime = .UNIX_EPOCH ∧ attr.atime = .UNIX_EPOCH ∧
      attr.mtime = .UNIX_EPOCH

/-- The entries have bare attributes up to the first name without a UTF-16 C string and the first
record that the caller refuses. -/
def OffersBare {φ : Type} (attrs : INodeNo → Option FileAttr) (fill : FindData → φ → Bool × φ) :
    List DirectoryEntryPayload → φ → Prop
  | [], _ => True
  | entry :: rest, caller =>
      match U16CStr.fromStr entry.name.toStringLossy with
      | none => True
      | some fileName =>
          let answer := fill (plainData entry (attrs entry.ino) fileName) caller
          Bare (attrs entry.ino) ∧ (answer.1 = true → OffersBare attrs fill rest answer.2)

theorem plainData_eq_fullData_iff {entry : DirectoryEntryPayload} {attr : Option FileAttr}
    {fileName : U16CStr} : plainData entry attr fileName = fullData entry attr fileName ↔ Bare attr := by
  cases attr with
  | none => exact iff_of_true rfl trivial
  | some attr =>
      simp only [plainData, fullData, Bare, FindData.mk.injEq, Option.elim_some]
      constructor
      · rintro ⟨-, hctime, hatime, hmtime, hsize, -⟩
        exact ⟨hsize.symm, hctime.symm, hatime.symm, hmtime.symm⟩
      · rintro ⟨hsize, hctime, hatime, hmtime⟩
        exact ⟨trivial, hctime.symm, hatime.symm, hmtime.symm, hsize.symm, trivial⟩

section Plans
variable {φ : Type} {attrs : INodeNo → Option FileAttr} {fill : FindData → φ → Bool × φ}

theorem readdirPlan_unusable {data : DirectoryEntryPayload → Option FileAttr → U16CStr → FindData}
    {entry : DirectoryEntryPayload} (hname : U16CStr.fromStr entry.name.toStringLossy = none)
    (rest : List DirectoryEntryPayload) :
    readdirPlan (fun _ => true) data attrs (entry :: rest) = .unusable := by
  rw [readdirPlan, hname]

theorem readdirPlan_usable {data : DirectoryEntryPayload → Option FileAttr → U16CStr → FindData}
    {entry : DirectoryEntryPayload} {fileName : U16CStr}
    (hname : U16CStr.fromStr entry.name.toStringLossy = some fileName)
    (rest : List DirectoryEntryPayload) :
    readdirPlan (fun _ => true) data attrs (entry :: rest)
      = (readdirPlan (fun _ => true) data attrs rest).cons
          (data entry (attrs entry.ino) fileName, entry.offset.toInt64) := by
  rw [readdirPlan, hname]
  exact if_pos rfl

/-- Where the attributes are bare the two plans come out alike. -/
theorem OffersBare.follows {entries : List DirectoryEntryPayload} {caller : φ}
    (h : OffersBare attrs fill entries caller) (emittedOffset : Option Int64) :
    let plain := readdirPlan (fun _ => true) plainData attrs entries
    let full := readdirPlan (fun _ => true) fullData attrs entries
    plain.fed fill caller = full.fed fill caller ∧
      plain.result emittedOffset (plain.fed fill caller)
        = full.result emittedOffset (full.fed fill caller) := by
  induction entries generalizing caller emittedOffset with
  | nil => exact ⟨rfl, rfl⟩
  | cons entry rest ih =>
      unfold OffersBare at h
      cases hname : U16CStr.fromStr entry.name.toStringLossy with
      | none =>
          rw [readdirPlan_unusable hname, readdirPlan_unusable hname]
          exact ⟨rfl, rfl⟩
      | some fileName =>
          rw [hname] at h
          obtain ⟨hbare, hrest⟩ := h
          rw [readdirPlan_usable hname, readdirPlan_usable hname,
            ← plainData_eq_fullData_iff.mpr hbare]
          cases hanswer : (fill (plainData entry (attrs entry.ino) fileName) caller).1 with
          | false =>
              dsimp only
              rw [ListingPlan.result_cons_refused _ hanswer, ListingPlan.result_cons_refused _ hanswer,
                ListingPlan.fed_cons_refused _ hanswer, ListingPlan.fed_cons_refused _ hanswer]
              exact ⟨rfl, rfl⟩
          | true =>
              obtain ⟨hfed, hresult⟩ := ih (hrest hanswer) (some entry.offset.toInt64)
              dsimp only
              rw [ListingPlan.result_cons_accepted _ hanswer,
                ListingPlan.result_cons_accepted _ hanswer, ListingPlan.fed_cons_accepted _ hanswer,
                ListingPlan.fed_cons_accepted _ hanswer, hfed]
              exact ⟨rfl, hfed ▸ hresult⟩

/-- The first record that is not bare tells the two plans apart. -/
theorem OffersBare.of_offered {entries : List DirectoryEntryPayload} {caller : φ}
    (h : ((readdirPlan (fun _ => true) plainData attrs entries).fed fill caller).offered.map Prod.fst
      = ((readdirPlan (fun _ => true) fullData attrs entries).fed fill caller).offered.map
        Prod.fst) : OffersBare attrs fill entries caller := by
  induction entries generalizing caller with
  | nil => trivial
  | cons entry rest ih =>
      unfold OffersBare
      cases hname : U16CStr.fromStr entry.name.toStringLossy with
      | none => trivial
      | some fileName =>
          rw [readdirPlan_usable hname, readdirPlan_usable hname] at h
          have hhead := congrArg List.head? h
          rw [List.head?_map, List.head?_map, ListingPlan.fed_cons_head, ListingPlan.fed_cons_head]
            at hhead
          have hdata : plainData entry (attrs entry.ino) fileName
              = fullData entry (attrs entry.ino) fileName := Option.some.inj hhead
          refine ⟨plainData_eq_fullData_iff.mp hdata, fun hanswer => ih ?_⟩
          rw [← hdata, ListingPlan.fed_cons_accepted _ hanswer,
            ListingPlan.fed_cons_accepted _ hanswer] at h
          exact (List.cons.inj h).2

end Plans

namespace World
variable {β φ : Type}

/-- The two listings offer the same records and store the same offset exactly when every record that
`find_files` offers has bare attributes behind it. -/
theorem unfiltered_listing_agrees_iff (pf : Platform) (h : Host β φ) (notices : Notices)
    {listing : INodeNo → FileHandle → UInt64 → ReplyDirectory} {attrs : INodeNo → Option FileAttr}
    (hlists : h.ListsWithoutPlus listing attrs) (fileName pattern : U16CStr)
    (hall : ∀ name, pf.isNameInExpression pattern name true = true) (context : AdapterContext)
    (w : World β φ) :
    let unfiltered := w.view pf h notices (findFiles pf fileName context)
    let filtered := w.view pf h notices (findFilesWithPattern pf fileName pattern context)
    (unfiltered.offered = filtered.offered ∧ unfiltered.openState = filtered.openState) ↔
      ∀ ino, ((directoryIno pf (requestFromIds context.requestIds) fileName.toStringLossy
          context).run (machine pf h notices) w).1 = .ok ino →
        OffersBare attrs h.fillFindData
          (listing ino context.fh (w.requestAt fileName.toStringLossy)).entries w.caller := by
  dsimp only
  rw [findFiles_eq_listDirectory, findFilesWithPattern_eq_listDirectory]
  set req := requestFromIds context.requestIds with hreq
  set pathKey := fileName.toStringLossy with hpathKey
  cases hino : ((directoryIno pf req pathKey context).run (machine pf h notices) w).1 with
  | error err =>
      rw [view_listDirectory_error pf h notices _ _ _ _ hino,
        view_listDirectory_error pf h notices _ _ _ _ hino]
      exact iff_of_true ⟨rfl, rfl⟩ (by rintro _ ⟨⟩)
  | ok ino =>
      set reply := listing ino context.fh (w.requestAt pathKey) with hreply
      have hattrs : h.Reports attrs reply.entries := fun entry _ req b =>
        hlists.getattr req entry.ino b
      have hplain := listEntries_follows pf notices req (hlists.readdir _ ino context.fh
        (w.requestAt pathKey)) hattrs
      have hfull := listMatchingEntries_fallback_follows pf notices req fileName pattern
        (hlists.noReaddirplus _ ino context.fh (w.requestAt pathKey)) (hlists.readdir _ _ _ _) hattrs
      have hshows : (fun name => pf.isNameInExpression pattern name true) = fun _ => true :=
        funext hall
      rw [hshows] at hfull
      rw [view_listDirectory pf h notices _ _ _ _ hino hplain,
        view_listDirectory pf h notices _ _ _ _ hino hfull]
      constructor
      · rintro ⟨hoffered, -⟩ _ ⟨⟩
        rw [ListingPlan.view_offered, ListingPlan.view_offered] at hoffered
        exact .of_offered hoffered
      · intro hbare
        obtain ⟨hfed, hresult⟩ := (hbare ino rfl).follows none
        rw [ListingPlan.view_congr hfed hresult]
        exact ⟨rfl, rfl⟩

/-- A directory with one entry, whose inode has these attributes. -/
def listsOne (attr : FileAttr) : (c : FsCall) → c.Reply
  | .readdir .. => (⟨[⟨attr.ino, 1, attr.kind, .new ['g']⟩], some (.ok ())⟩ : ReplyDirectory)
  | .readdirplus .. => (⟨[], some (.error ENOSYS)⟩ : ReplyDirectoryPlus)
  | .getattr .. => (some (.ok ⟨attr, .fromSecs 1⟩) : Reply ReplyAttrPayload)
  | c => c.unanswered

theorem listsOne_lists (attr : FileAttr) : (Host.stateless (listsOne attr)).ListsWithoutPlus
    (fun _ _ _ => ⟨[⟨attr.ino, 1, attr.kind, .new ['g']⟩], some (.ok ())⟩) (fun _ => some attr) :=
  ⟨fun _ _ _ _ _ => rfl, fun _ _ _ _ _ => rfl, fun _ _ _ => rfl⟩

theorem unfiltered_listing_agrees_iff_one :
    (World.mounted.view .ascii (.stateless (listsOne (.plain ⟨6⟩ .regularFile))) undisturbed
        (findFiles .ascii fileF directoryF)).offered
      = (World.mounted.view .ascii (.stateless (listsOne (.plain ⟨6⟩ .regularFile))) undisturbed
        (findFilesWithPattern .ascii fileF fileF directoryF)).offered :=
  ((unfiltered_listing_agrees_iff .ascii _ undisturbed (listsOne_lists (.plain ⟨6⟩ .regularFile))
    fileF fileF (fun _ => rfl) directoryF World.mounted).mpr fun _ _ =>
      ⟨⟨rfl, rfl, rfl, rfl⟩, fun _ => trivial⟩).1

/-- `find_files` shows a file of seven bytes as empty. -/
theorem sizes_left_out :
    ¬ ∀ (β φ : Type) (pf : Platform) (h : Host β φ) (notices : Notices)
      (listing : INodeNo → FileHandle → UInt64 → ReplyDirectory) (attrs : INodeNo → Option FileAttr),
      h.ListsWithoutPlus listing attrs → ∀ fileName pattern : U16CStr,
      (∀ name, pf.isNameInExpression pattern name true = true) →
      ∀ (context : AdapterContext) (w : World β φ),
        (w.view pf h notices (findFiles pf fileName context)).offered
            = (w.view pf h notices (findFilesWithPattern pf fileName pattern context)).offered ∧
          (w.view pf h notices (findFiles pf fileName context)).openState
            = (w.view pf h notices (findFilesWithPattern pf fileName pattern context)).openState := by
  intro hall
  obtain ⟨hoffered, -⟩ := hall Unit Unit .ascii
    (.stateless (listsOne { FileAttr.plain ⟨6⟩ .regularFile with size := 7 })) undisturbed _ _
    (listsOne_lists _) fileF fileF (fun _ => rfl) directoryF World.mounted
  revert hoffered
  decide

end World
end Confuse
