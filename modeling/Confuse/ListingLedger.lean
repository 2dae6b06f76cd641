import Confuse.ForgetOrder
import Confuse.PanickingRuns

/-!
# The references of a listing

A `readdirplus` reply grants a reference for each entry but the two dot names. The loop over the
entries records every entry that it visits, dot names included, and leaves out what comes after the
point where it stops. Its account is right exactly when it does not panic on a time to live and these
two deviations cancel.
-/

namespace Confuse

open Interaction
open Event (granted recorded drained forgotten)

/-- The reply grants a reference for this entry. -/
def ReplyDirectoryPlus.grants (reply : ReplyDirectoryPlus) (entry : DirectoryPlusEntryPayload) :
    Bool := reply.status = some (.ok ()) ∧ !isDotName entry.name

/-- The inodes that the loop records without a reference when it visits the first `n` entries. -/
def ReplyDirectoryPlus.surplus (reply : ReplyDirectoryPlus) (n : ℕ) : List INodeNo :=
  ((reply.entries.take n).filter fun entry => !reply.grants entry).map fun entry => entry.attr.ino

/-- The inodes whose references the loop leaves out when it visits the first `n` entries. -/
def ReplyDirectoryPlus.shortfall (reply : ReplyDirectoryPlus) (n : ℕ) : List INodeNo :=
  ((reply.entries.drop n).filter reply.grants).map fun entry => entry.attr.ino

theorem ReplyDirectoryPlus.granted_eq (reply : ReplyDirectoryPlus) :
    reply.granted = (reply.entries.filter reply.grants).map fun entry => entry.attr.ino := by
  obtain ⟨entries, _ | ⟨err⟩ | ⟨⟩⟩ := reply
  · simp [granted, grants]
  · simp [granted, grants]
  · exact congrArg (List.map _) (List.filter_congr fun entry _ => by simp [grants])

theorem ReplyDirectoryPlus.count_take (reply : ReplyDirectoryPlus) (n : ℕ) (i : INodeNo) :
    ((reply.entries.take n).map fun entry => entry.attr.ino).count i + (reply.shortfall n).count i
      = reply.granted.count i + (reply.surplus n).count i := by
  have hgranted : reply.granted.count i
      = (((reply.entries.take n).filter reply.grants).map fun entry => entry.attr.ino).count i
        + (reply.shortfall n).count i := by
    rw [reply.granted_eq, shortfall, ← List.count_append, ← List.map_append, ← List.filter_append,
      List.take_append_drop]
  have hsplit := ((List.filter_append_perm reply.grants (reply.entries.take n)).map
    fun entry => entry.attr.ino).count_eq i
  rw [List.map_append, List.count_append] at hsplit
  rw [hgranted, ← hsplit, surplus]
  omega

/-- Every listing of the log that the backend supports is visited up to an entry at which what is
recorded without a reference makes up for what is left out. -/
def Evens (pf : Platform) (fileName pattern : U16CStr) (log : List Event) : Prop :=
  ∀ l req ino fh offset (reply : ReplyDirectoryPlus) rest,
    log = l ++ .call (.readdirplus req ino fh offset) reply :: rest →
      isUnsupported reply.status = false →
        let n := (visitedEntries pf fileName pattern reply.entries (answers rest)).length
        (reply.surplus n).Perm (reply.shortfall n)

/-- A list with one listing splits at a listing in one way. -/
theorem split_at_listing {l l' rest rest' : List Event} {e e' : Event}
    (h : l' ++ e' :: rest' = l ++ e :: rest) (he' : e'.isListing) (hl : Unlisted l)
    (hrest : Unlisted rest) : e' = e ∧ rest' = rest := by
  rcases List.append_eq_append_iff.mp h with ⟨k, rfl, hk⟩ | ⟨k, rfl, hk⟩
  · cases k with
    | nil =>
        obtain ⟨rfl, rfl⟩ := List.cons.inj hk
        exact ⟨rfl, rfl⟩
    | cons x k =>
        obtain ⟨rfl, -⟩ := List.cons.inj hk
        exact absurd he' (by simp [hl e' (by simp)])
  · cases k with
    | nil =>
        obtain ⟨rfl, rfl⟩ := List.cons.inj hk
        exact ⟨rfl, rfl⟩
    | cons x k =>
        obtain ⟨rfl, rfl⟩ := List.cons.inj hk
        exact absurd he' (by simp [hrest e' (by simp)])

/-- A listing callback records what it is granted exactly when its listing evens out. -/
theorem recorded_eq_granted_iff {pf : Platform} {fileName pattern : U16CStr} {evs : List Event}
    (h : (Booked evs ∧ Unlisted evs) ∨ Listed pf fileName pattern evs) :
    (∀ i, along recorded evs i = along granted evs i) ↔ Evens pf fileName pattern evs := by
  rcases h with ⟨hbooked, hunlisted⟩ | ⟨hl, hunlisted, hsupported, hrest⟩
  · refine iff_of_true hbooked.settled ?_
    rintro l req ino fh offset reply rest rfl hsupported
    have hlisting := hunlisted (.call (.readdirplus req ino fh offset) reply) (by simp)
    simp [Event.isListing, hsupported] at hlisting
  · rename_i l rest req ino fh offset reply
    obtain ⟨n, hn⟩ : ∃ n, n = (visitedEntries pf fileName pattern reply.entries
      (answers rest)).length := ⟨_, rfl⟩
    have hvisited : visitedEntries pf fileName pattern reply.entries (answers rest)
        = reply.entries.take n :=
      hn ▸ List.prefix_iff_eq_take.mp (visitedEntries_starts pf fileName pattern _ _)
    have hcount : ∀ i, along recorded (l ++ .call (.readdirplus req ino fh offset) reply :: rest) i
        + (reply.shortfall n).count i
          = along granted (l ++ .call (.readdirplus req ino fh offset) reply :: rest) i
            + (reply.surplus n).count i := by
      intro i
      have htake := reply.count_take n i
      rw [← hvisited, ← hrest.sum i] at htake
      have hgranted : along granted rest i = 0 :=
        along_eq_zero _ fun e he => granted_of_silent (hrest.silent e he) i
      have hl' := hl.settled i
      simp only [along_append, along_cons, hgranted, recorded, granted, FsCall.granted]
      omega
    subst hn
    constructor
    · intro hall l' req' ino' fh' offset' reply' rest' heq hsupported'
      obtain ⟨hcall, rfl⟩ := split_at_listing heq.symm (by simp [Event.isListing, hsupported'])
        hunlisted (unlisted_of_silent hrest.silent)
      obtain ⟨hcall, hreply⟩ := Event.call.inj hcall
      obtain ⟨rfl, rfl, rfl, rfl⟩ := FsCall.readdirplus.inj hcall
      obtain rfl := eq_of_heq hreply
      refine List.perm_iff_count.mpr fun i => ?_
      have hi := hcount i
      have hall := hall i
      omega
    · intro hevens i
      have hperm := (hevens l req ino fh offset reply rest rfl hsupported).count_eq i
      have hi := hcount i
      omega

/-- Between the resolver's books, the forgets delivered and the grants of the backend nothing is
lost or added over a call of `find_files_with_pattern` exactly when its listing evens out. -/
theorem accounts_iff_evens {β φ : Type} (pf : Platform) (h : Host β φ)
    (fileName pattern : U16CStr) (context : AdapterContext) (w : World β φ) (hw : w.Genuine pf)
    (hroom : ∀ i, along recorded
      (w.log ++ w.eventsOf pf h (.findFilesWithPattern fileName pattern context)) i < 2 ^ 64) :
    (∀ i, along forgotten (w.eventsOf pf h (.findFilesWithPattern fileName pattern context)) i
        + ((findFilesWithPattern pf fileName pattern context).run
            (machine pf h undisturbed) w).2.resolver.held i
      = w.resolver.held i
        + along granted (w.eventsOf pf h (.findFilesWithPattern fileName pattern context)) i) ↔
      Evens pf fileName pattern
        (w.eventsOf pf h (.findFilesWithPattern fileName pattern context)) := by
  obtain ⟨ht, hleads, hquiet⟩ := World.eventsOf_spec pf h
    (.findFilesWithPattern fileName pattern context) w
  rw [← recorded_eq_granted_iff (findFilesWithPattern_traces pf fileName pattern context _ _ ht)]
  set evs := w.eventsOf pf h (.findFilesWithPattern fileName pattern context)
  have hsum : ∀ i, along drained evs i + (replay pf.caseFold w.resolver evs).held i
      = w.resolver.held i + along recorded evs i := by
    refine hleads.legal.drained_add_held (hw.balanced fun i => ?_) (fun i => ?_) hquiet
    · have hi := hroom i
      rw [along_append] at hi
      omega
    · have hi := hroom i
      have hle := hw.held_le i
      rw [along_append] at hi
      omega
  have hforgotten := (every_settles_forgotten _ evs _ ht).settled
  have hresolver : ((findFilesWithPattern pf fileName pattern context).run
      (machine pf h undisturbed) w).2.resolver = replay pf.caseFold w.resolver evs := hleads.resolver
  refine forall_congr' fun i => ?_
  have hi := hsum i
  rw [hresolver, hforgotten]
  omega

/-- A call of `find_files_with_pattern` returns with all references accounted for exactly when every
expiry that it computes is an instant and its listing evens out. -/
theorem listing_accounts_iff {β φ : Type} (pf : Platform) (h : Host β φ)
    (fileName pattern : U16CStr) (context : AdapterContext) (w : World β φ) (hw : w.Genuine pf)
    (hroom : ∀ i, along recorded
      (w.log ++ w.eventsOf pf h (.findFilesWithPattern fileName pattern context)) i < 2 ^ 64) :
    (∃ result w', w.attempt pf h undisturbed (findFilesWithPattern pf fileName pattern context)
          = .ok (result, w') ∧
        ∀ i, along forgotten (w.eventsOf pf h (.findFilesWithPattern fileName pattern context)) i
            + w'.resolver.held i
          = w.resolver.held i
            + along granted (w.eventsOf pf h (.findFilesWithPattern fileName pattern context)) i) ↔
      w.Lasts pf h undisturbed (findFilesWithPattern pf fileName pattern context) ∧
        Evens pf fileName pattern
          (w.eventsOf pf h (.findFilesWithPattern fileName pattern context)) :=
  World.exists_attempt_iff.trans <| and_congr_right fun _ =>
    accounts_iff_evens pf h fileName pattern context w hw hroom

/-- A backend whose root directory lists one entry. -/
def lists (name : OsStr) (ino : INodeNo) (ttl : Duration) : (c : FsCall) → c.Reply
  | .readdirplus .. => (⟨[⟨ino, 1, name, ttl, .plain ino .regularFile, ⟨1⟩⟩],
      some (.ok ())⟩ : ReplyDirectoryPlus)
  | c => c.unanswered

def anyName : U16CStr := ⟨[42], by simp⟩

theorem listing_accounts_iff_file :
    let h := Host.stateless (lists (.new ['f']) ⟨5⟩ (.fromSecs 10))
    let call := findFilesWithPattern .ascii rootPath anyName {}
    let evs := World.mounted.eventsOf .ascii h (.findFilesWithPattern rootPath anyName {})
    (∃ result w', World.mounted.attempt .ascii h undisturbed call = .ok (result, w') ∧
        ∀ i, along forgotten evs i + w'.resolver.held i
          = World.mounted.resolver.held i + along granted evs i) ↔
      World.mounted.Lasts .ascii h undisturbed call ∧ Evens .ascii rootPath anyName evs :=
  listing_accounts_iff .ascii (.stateless (lists (.new ['f']) ⟨5⟩ (.fromSecs 10))) rootPath anyName {}
    World.mounted (genuine_mounted _) fun i => (along_recorded_le_length _ i).trans_lt (by decide)

/-- The entry `.` is recorded, and later forgotten, although no reference came with it. -/
theorem dot_entry_is_recorded :
    let h := Host.stateless (lists (.new ['.']) ⟨1⟩ (.fromSecs 10))
    let call := findFilesWithPattern .ascii rootPath anyName {}
    let evs := World.mounted.eventsOf .ascii h (.findFilesWithPattern rootPath anyName {})
    World.mounted.Lasts .ascii h undisturbed call ∧
      ¬ ∃ result w', World.mounted.attempt .ascii h undisturbed call = .ok (result, w') ∧
        ∀ i, along forgotten evs i + w'.resolver.held i
          = World.mounted.resolver.held i + along granted evs i := by
  intro h call evs
  refine ⟨by decide, fun hreturns => ?_⟩
  obtain ⟨-, hall⟩ := World.exists_attempt_iff.mp hreturns
  exact absurd (hall ⟨1⟩) (by decide)

end Confuse
