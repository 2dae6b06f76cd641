import Confuse.DirectoryReading

/-!
# Listings that are resumed

A caller that refuses an entry calls again for the rest. The offset in between is the cookie of the
last accepted entry, kept as a signed number; a negative one is taken for the start of the directory.
-/

namespace Confuse

open Interaction SortedCursor

/-- A cookie comes back from the signed number that it is kept as unless its top bit is set. -/
theorem readdirOffset_toInt64 (cookie : UInt64) :
    readdirOffset cookie.toInt64 = if cookie.toNat < 2 ^ 63 then cookie else 0 := by
  have hint : cookie.toInt64.toInt
      = if 2 * cookie.toNat < 2 ^ 64 then (cookie.toNat : ℤ) else cookie.toNat - 2 ^ 64 :=
    BitVec.toInt_eq_toNat_cond cookie.toBitVec
  have hle : cookie.toInt64 ≤ 0 ↔ cookie.toInt64.toInt ≤ 0 := Int64.le_iff_toInt_le
  have hbound : cookie.toNat < 2 ^ 64 := cookie.toNat_lt
  have hmax : max cookie.toInt64 0 = if cookie.toInt64 ≤ 0 then 0 else cookie.toInt64 := rfl
  unfold readdirOffset
  rw [hmax]
  by_cases hsmall : cookie.toNat < 2 ^ 63
  · rw [if_pos hsmall]
    split_ifs with hnegative
    · have hzero : cookie.toNat = 0 := by
        rw [hle, hint] at hnegative
        split_ifs at hnegative <;> omega
      exact (UInt64.toNat_inj.mp hzero).symm
    · exact UInt64.toUInt64_toInt64 cookie
  · rw [if_neg hsmall, if_pos]
    · rfl
    · rw [hle, hint]
      split_ifs <;> omega

/-- The backend answers a request with all entries after its offset. -/
def Host.Lists {β φ : Type} (h : Host β φ) (d : Directory) (ino : INodeNo) : Prop :=
  ∀ req fh offset b, (h.reply (.readdir req ino fh offset) b).1
    = (⟨d.after offset, some (.ok ())⟩ : ReplyDirectory)

/-- All entries have names that the caller can be given, and cookies without the top bit. -/
def Directory.Representable (d : Directory) : Prop :=
  ∀ entry ∈ d.entries, entry.fileName ≠ none ∧ entry.cookie < 2 ^ 63

namespace World
variable {β φ : Type} (pf : Platform) (h : Host β φ) (notices : Notices)

/-- What the listings of a handle deliver, one call after the other, each with a caller of its own. -/
def deliveredEach (fileName : U16CStr) (handle : DirectoryHandle) : List φ → World β φ → List FindData
  | [], _ => []
  | caller :: rest, w =>
      let called := { w with caller := caller }
      (listing (called.newEvents pf h notices (findFiles pf fileName handle.context))).delivered ++
        deliveredEach fileName handle rest
          ((findFiles pf fileName handle.context).run (machine pf h notices) called).2

end World

/-- Whatever each caller accepts, the listings of a new handle deliver the directory from its start,
without a gap or a repetition. -/
def Directory.Resumes (d : Directory) (pf : Platform) (fileName : U16CStr) (handle : DirectoryHandle) :
    Prop :=
  ∀ (β φ : Type) (h : Host β φ) (notices : Notices) (w : World β φ) (callers : List φ),
    h.Lists d handle.context.ino → w.offsetAt fileName.toStringLossy = 0 →
      ∃ n, ShowAll (d.entries.take n) (w.deliveredEach pf h notices fileName handle callers)

namespace Directory
variable {β φ : Type} {d : Directory} {pf : Platform} {h : Host β φ} {notices : Notices}
  {fileName : U16CStr} {handle : DirectoryHandle}

theorem after_position {offset : UInt64} {n : ℕ}
    (hoffset : offset.toNat = position DirectoryEntryPayload.cookie 0 d.entries n) :
    d.after offset = d.entries.drop n := by
  rw [after, hoffset, rest_position d.increasing]

theorem after_zero : d.after 0 = d.entries := rest_start d.increasing

theorem entries_replyAt (hlists : h.Lists d handle.context.ino) (w : World β φ) :
    (w.replyAt h fileName handle).entries = d.after (w.requestAt fileName.toStringLossy) :=
  congrArg ReplyDirectory.entries (hlists _ _ _ _)

/-- One listing takes some of the entries behind a position and leaves the position behind them. -/
theorem listing_step (pf : Platform) (notices : Notices)
    (hlists : h.Lists d handle.context.ino) (hd : d.Representable) {n : ℕ}
    (w : World β φ) (hw : (w.requestAt fileName.toStringLossy).toNat
      = position DirectoryEntryPayload.cookie 0 d.entries n) :
    ∃ m, ShowAll ((d.entries.drop n).take m)
        (listing (w.newEvents pf h notices (findFiles pf fileName handle.context))).delivered ∧
      (((findFiles pf fileName handle.context).run (machine pf h notices) w).2.requestAt
          fileName.toStringLossy).toNat
        = position DirectoryEntryPayload.cookie 0 d.entries (n + m) := by
  obtain ⟨emitted, ⟨m, hshow, hend⟩, hleft⟩ := w.findFiles_listedTo pf h notices fileName handle
  rw [entries_replyAt hlists, after_position hw] at hshow hend
  refine ⟨m, hshow, ?_⟩
  rw [hleft, position_add]
  rcases hend with ⟨rfl, -⟩ | ⟨entry, hentry, hname, -⟩
  · cases hlast : ((d.entries.drop n).take m).getLast? with
    | none => exact hw
    | some entry =>
        have hmem : entry ∈ d.entries := List.drop_subset n d.entries
          (List.take_subset m _ (List.mem_of_getLast? hlast))
        have hsmall : entry.offset.toNat < 2 ^ 63 := (hd entry hmem).2
        change (readdirOffset entry.offset.toInt64).toNat = entry.cookie
        rw [readdirOffset_toInt64, if_pos hsmall]
        rfl
  · have hmem : entry ∈ d.entries := List.drop_subset n d.entries (List.mem_of_getElem? hentry)
    exact absurd hname (hd entry hmem).1

theorem deliveredEach_of_representable (hlists : h.Lists d handle.context.ino) (hd : d.Representable)
    (callers : List φ) {n : ℕ} (w : World β φ) (hw : (w.requestAt fileName.toStringLossy).toNat
      = position DirectoryEntryPayload.cookie 0 d.entries n) :
    ∃ m, ShowAll ((d.entries.drop n).take m)
      (w.deliveredEach pf h notices fileName handle callers) := by
  induction callers generalizing n w with
  | nil => exact ⟨0, .nil⟩
  | cons caller rest ih =>
      obtain ⟨m, hshow, hleft⟩ := listing_step pf notices hlists hd { w with caller := caller } hw
      obtain ⟨k, hrest⟩ := ih _ hleft
      refine ⟨m + k, ?_⟩
      rw [List.take_add, List.drop_drop]
      exact List.rel_append hshow hrest

/-- A directory whose first entry has no name for the caller delivers nothing. -/
theorem deliveredEach_of_unnamed (hlists : h.Lists d handle.context.ino)
    {entry : DirectoryEntryPayload} (hhead : d.entries.head? = some entry)
    (hname : entry.fileName = none) (callers : List φ) (w : World β φ)
    (hw : w.requestAt fileName.toStringLossy = 0) :
    w.deliveredEach pf h notices fileName handle callers = [] := by
  induction callers generalizing w with
  | nil => rfl
  | cons caller rest ih =>
      let called := { w with caller := caller }
      obtain ⟨emitted, ⟨m, hshow, hend⟩, hleft⟩ :=
        called.findFiles_listedTo pf h notices fileName handle
      have hcalled : called.requestAt fileName.toStringLossy = 0 := hw
      rw [entries_replyAt hlists, hcalled, after_zero] at hshow hend
      rw [hcalled] at hleft
      obtain ⟨tail, htail⟩ := List.head?_eq_some_iff.mp hhead
      have hnone : m = 0 := by
        by_contra hm
        obtain ⟨k, rfl⟩ := Nat.exists_eq_succ_of_ne_zero hm
        refine hshow.fileName_ne_none entry ?_ hname
        rw [htail, List.take_succ_cons]
        exact List.mem_cons_self
      subst hnone
      have hdelivered : (listing (called.newEvents pf h notices
          (findFiles pf fileName handle.context))).delivered = [] := List.forall₂_nil_left_iff.mp hshow
      have hrest := ih ((findFiles pf fileName handle.context).run (machine pf h notices) called).2 <| by
        rw [hleft]
        rcases hend with ⟨rfl, -⟩ | ⟨_, -, -, rfl⟩ <;> rfl
      exact (congrArg₂ (· ++ ·) hdelivered hrest).trans rfl

/-! ## Where a directory is not resumed -/

/-- A backend that lists the directory and answers nothing else. -/
def answer (d : Directory) : (c : FsCall) → c.Reply
  | .readdir _ _ _ offset => (⟨d.after offset, some (.ok ())⟩ : ReplyDirectory)
  | c => c.unanswered

/-- A caller that accepts everything gets the entries up to the end or up to the first one without a
name. If an entry without a name or a cookie with the top bit is among them, the next listing starts
over. -/
theorem listing_starts_over (hnot : ¬ d.Representable) (pf : Platform) (fileName : U16CStr)
    (handle : DirectoryHandle) (w : World Unit Unit)
    (hw : w.requestAt fileName.toStringLossy = 0) :
    ∃ m, ShowAll (d.entries.take m) (listing (w.newEvents pf (.stateless d.answer) undisturbed
        (findFiles pf fileName handle.context))).delivered ∧
      (((findFiles pf fileName handle.context).run (machine pf (.stateless d.answer) undisturbed) w).2
        ).requestAt fileName.toStringLossy = 0 ∧
      (m = d.entries.length ∨ ∃ entry, d.entries[m]? = some entry ∧ entry.fileName = none) := by
  have hlists : (Host.stateless d.answer).Lists d handle.context.ino := fun _ _ _ _ => rfl
  obtain ⟨emitted, ⟨m, hshow, hend⟩, hleft⟩ :=
    w.findFiles_listedTo pf (.stateless d.answer) undisturbed fileName handle
  rw [entries_replyAt hlists, hw, after_zero] at hshow hend
  rw [hw] at hleft
  refine ⟨m, hshow, ?_⟩
  rcases hend with ⟨rfl, hstop⟩ | ⟨entry, hentry, hname, rfl⟩
  · have hall : m = d.entries.length := hstop.resolve_right <| by
      rintro ⟨data, hdata⟩
      obtain ⟨caller, hcaller⟩ := World.newEvents_answered pf _ _ _ w _ hdata
      cases hcaller
    subst hall
    refine ⟨?_, .inl rfl⟩
    rw [List.take_length] at hshow hleft
    obtain ⟨large, hlarge, hcookie⟩ : ∃ entry ∈ d.entries, 2 ^ 63 ≤ entry.cookie := by
      by_contra hsmall
      push Not at hsmall
      exact hnot fun entry hentry => ⟨hshow.fileName_ne_none entry hentry, hsmall entry hentry⟩
    obtain ⟨last, hlast⟩ := Option.ne_none_iff_exists'.mp
      (mt List.getLast?_eq_none_iff.mp (List.ne_nil_of_mem hlarge))
    have hle : large.cookie ≤ last.cookie := by
      have hposition := d.increasing.le_of_mem_take (n := d.entries.length)
        (by rwa [List.take_length] : large ∈ _)
      rwa [position, List.take_length, hlast] at hposition
    have hlarge' : ¬ last.offset.toNat < 2 ^ 63 := not_lt.mpr (hcookie.trans hle)
    rw [hleft, hlast]
    change readdirOffset last.offset.toInt64 = 0
    rw [readdirOffset_toInt64, if_neg hlarge']
  · exact ⟨hleft.trans rfl, .inr ⟨entry, hentry, hname⟩⟩

/-- A directory is resumed after every refusal exactly when its first entry has no name for the
caller, so that nothing is ever delivered, or all of its entries are representable. -/
theorem resumes_iff (d : Directory) (pf : Platform) (fileName : U16CStr) (handle : DirectoryHandle) :
    d.Resumes pf fileName handle ↔
      (∃ entry, d.entries.head? = some entry ∧ entry.fileName = none) ∨ d.Representable := by
  constructor
  · intro hresumes
    by_contra hnot
    obtain ⟨hnamed, hnot⟩ := not_or.mp hnot
    have hlists : (Host.stateless d.answer).Lists d handle.context.ino := fun _ _ _ _ => rfl
    obtain ⟨m, hshow, hleft, hend⟩ := listing_starts_over hnot pf fileName handle
      { World.mounted with caller := () } rfl
    obtain ⟨m', hshow', -, hend'⟩ := listing_starts_over hnot pf fileName handle
      { ((findFiles pf fileName handle.context).run (machine pf (.stateless d.answer) undisturbed)
          { World.mounted with caller := () }).2 with caller := () } hleft
    obtain ⟨n, hall⟩ := hresumes Unit Unit (.stateless d.answer) undisturbed World.mounted [(), ()]
      hlists rfl
    have hsome : 0 < d.entries.length := by
      refine List.length_pos_iff.mpr fun hnil => hnot ?_
      simp [Representable, hnil]
    have hsecond : 0 < m' := by
      refine Nat.pos_of_ne_zero fun hzero => ?_
      rcases hend' with hlength | ⟨entry, hentry, hname⟩
      · omega
      · rw [hzero, ← List.head?_eq_getElem?] at hentry
        exact hnamed ⟨entry, hentry, hname⟩
    have htotal := hall.length_eq
    have hlength := hshow.length_eq
    have hlength' := hshow'.length_eq
    rw [World.deliveredEach, World.deliveredEach, World.deliveredEach, List.length_append,
      List.length_append, List.length_take] at htotal
    rw [List.length_take] at hlength hlength'
    dsimp only at hlength hlength'
    rcases hend with hend | ⟨entry, hentry, hname⟩
    · omega
    · have hbound := (List.getElem?_eq_some_iff.mp hentry).1
      have hbefore : m < n := by omega
      refine hall.fileName_ne_none entry (List.mem_of_getElem? (i := m) ?_) hname
      rw [List.getElem?_take_of_lt hbefore, hentry]
  · rintro (⟨entry, hhead, hname⟩ | hd) β φ h notices w callers hlists hw
    · refine ⟨0, ?_⟩
      rw [deliveredEach_of_unnamed hlists hhead hname callers w (by rw [World.requestAt, hw]; rfl)]
      exact .nil
    · exact deliveredEach_of_representable hlists hd callers (n := 0) w
        (by rw [World.requestAt, hw]; rfl)

/-- A directory of one entry whose cookie has the top bit. -/
def topBit : Directory where
  entries := [⟨⟨6⟩, 0x8000000000000000, .regularFile, .new ['g']⟩]
  increasing := ⟨by simp, by decide⟩

/-- The entry is delivered by every listing. -/
theorem topBit_repeats :
    ¬ ∀ (d : Directory) (pf : Platform) (fileName : U16CStr) (handle : DirectoryHandle),
      d.Resumes pf fileName handle := by
  intro hall
  obtain ⟨n, hshow⟩ := hall topBit .ascii fileF ⟨directoryF, by decide⟩ Unit Unit
    (.stateless topBit.answer) undisturbed World.mounted [(), ()] (fun _ _ _ _ => rfl) rfl
  have hlength := hshow.length_eq
  rw [List.length_take] at hlength
  have htwice : (World.mounted.deliveredEach .ascii (.stateless topBit.answer) undisturbed fileF
      ⟨directoryF, by decide⟩ [(), ()]).length = 2 := by decide
  have hone : topBit.entries.length = 1 := rfl
  omega

end Directory
end Confuse
