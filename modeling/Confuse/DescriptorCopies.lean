import Confuse.Callbacks
import Confuse.PlainRoutes

/-!
# Copying a security descriptor

`get_file_security` asks for the length of the descriptor first and for its bytes when the buffer is
large enough. What it reports comes from the first reply, what it copies from the last one, so the
two belong together only while the file system answers both times for the same descriptor.
-/

namespace Confuse

open Interaction

/-! ## What the file system answers -/

/-- A reply on the way to a descriptor: to the probe of its length, to the request for its bytes, and
to the request for the attributes from which one is made up. -/
inductive DescriptorReply
  | probe (reply : ReplyXattr)
  | fetch (reply : ReplyXattr)
  | attr (reply : Reply ReplyAttrPayload)

def FsCall.descriptorReplies : (c : FsCall) → c.Reply → List DescriptorReply
  | .getxattr _ _ _ size, reply => [if size = 0 then .probe reply else .fetch reply]
  | .getattr .., reply => [.attr reply]
  | _, _ => []

def Event.descriptorReplies : Event → List DescriptorReply
  | .call c reply => c.descriptorReplies reply
  | _ => []

def descriptorReplies (evs : List Event) : List DescriptorReply := evs.flatMap Event.descriptorReplies

theorem descriptorReplies_append (evs evs' : List Event) :
    descriptorReplies (evs ++ evs') = descriptorReplies evs ++ descriptorReplies evs' :=
  List.flatMap_append

theorem descriptorReplies_call (c : FsCall) (reply : c.Reply) :
    descriptorReplies [.call c reply] = c.descriptorReplies reply := List.append_nil _

theorem descriptorReplies_notes {notes : List Event} (h : ∀ n ∈ notes, Event.isNotify n) :
    descriptorReplies notes = [] := by
  refine List.flatMap_eq_nil_iff.mpr fun n hn => ?_
  have hnote := h n hn
  cases n <;> first | rfl | cases hnote

/-- The descriptor that a reply comes to. -/
def DescriptorReply.data? : DescriptorReply → Option (List UInt8)
  | .probe reply | .fetch reply => reply.status.toOption
  | .attr reply => reply.toOption.map fun payload => synthesizedSecurityDescriptor payload.attr

/-- The descriptor that the last reply comes to. -/
def obtained (replies : List DescriptorReply) : Option (List UInt8) :=
  replies.getLast?.bind DescriptorReply.data?

/-- The length that the answer to the probe reports. -/
def reported : List DescriptorReply → Option UInt32
  | .probe reply :: _ =>
      reply.status.toOption.bind fun data => (xattrReportedLen data.length reply.sizeHint).toOption
  | _ => none

/-- A descriptor that is obtained for a buffer of the reported length has that length. -/
def SameLength (bufferLength : UInt32) (replies : List DescriptorReply) : Prop :=
  ∀ n data, reported replies = some n → n ≤ bufferLength → obtained replies = some data →
    data.length < 2 ^ 32 → data.length = n.toNat

/-! ## The buffer -/

/-- The caller's buffer after the callback. -/
def DescriptorCopy.store (result : Except NtStatus DescriptorCopy) (buffer : List UInt8) :
    List UInt8 :=
  match result with
  | .ok ⟨_, some data⟩ => data ++ buffer.drop data.length
  | _ => buffer

/-- The buffer takes the whole descriptor or nothing. -/
structure AllOrNothing (bufferLength : UInt32) (descriptor : Option (List UInt8))
    (result : Except NtStatus DescriptorCopy) (buffer : List UInt8) : Prop where
  complete : ∀ copy, result = .ok copy → copy.needed ≤ bufferLength → ∃ data,
    descriptor = some data ∧ data.length = copy.needed.toNat ∧
      (DescriptorCopy.store result buffer).take copy.needed.toNat = data
  tooSmall : ∀ copy, result = .ok copy → bufferLength < copy.needed →
    DescriptorCopy.store result buffer = buffer
  failed : ∀ status, result = .error status → DescriptorCopy.store result buffer = buffer
  within : (DescriptorCopy.store result buffer).drop bufferLength.toNat
    = buffer.drop bufferLength.toNat

theorem DescriptorCopy.drop_store {bufferLength needed : UInt32} {data buffer : List UInt8}
    (h : data.length ≤ bufferLength.toNat) :
    (DescriptorCopy.store (.ok ⟨needed, some data⟩) buffer).drop bufferLength.toNat
      = buffer.drop bufferLength.toNat := by
  change (data ++ buffer.drop data.length).drop bufferLength.toNat = _
  rw [List.drop_append, List.drop_eq_nil_of_le h, List.nil_append, List.drop_drop,
    Nat.add_sub_cancel' h]

theorem copySecurityDescriptor_ok {data : List UInt8} (h : data.length < 2 ^ 32)
    (hasBuffer : Bool) (bufferLength : UInt32) :
    copySecurityDescriptor data hasBuffer bufferLength = .ok ⟨.ofNat data.length,
      if bufferLength < .ofNat data.length then none else if hasBuffer then some data else none⟩ := by
  unfold copySecurityDescriptor checkedDokanLen
  rw [if_pos h]
  dsimp only [bind, Except.bind]
  split_ifs <;> rfl

theorem copySecurityDescriptor_error {data : List UInt8} (h : ¬ data.length < 2 ^ 32)
    (hasBuffer : Bool) (bufferLength : UInt32) :
    copySecurityDescriptor data hasBuffer bufferLength = .error STATUS_INVALID_PARAMETER := by
  unfold copySecurityDescriptor checkedDokanLen
  rw [if_neg h]
  rfl

/-! ## The outcome -/

/-- How `get_file_security` ends after these replies. -/
inductive Outcome (bufferLength : UInt32) (replies : List DescriptorReply) :
    Except NtStatus DescriptorCopy → Prop
  | failed (status : NtStatus)
      (h : ∀ n data, reported replies = some n → n ≤ bufferLength → obtained replies = some data →
        ¬ data.length < 2 ^ 32) : Outcome bufferLength replies (.error status)
  | tooSmall (n : UInt32) (hreported : reported replies = some n) (hsmall : bufferLength < n) :
      Outcome bufferLength replies (.ok ⟨n, none⟩)
  | synthesized (data : List UInt8) (hreported : reported replies = none)
      (hobtained : obtained replies = some data) (hlength : data.length < 2 ^ 32) :
      Outcome bufferLength replies (.ok ⟨.ofNat data.length,
        if bufferLength < .ofNat data.length then none else some data⟩)
  | copied (n : UInt32) (data : List UInt8) (hreported : reported replies = some n)
      (hlarge : n ≤ bufferLength) (hobtained : obtained replies = some data)
      (hlength : data.length < 2 ^ 32) :
      Outcome bufferLength replies (.ok ⟨n,
        if bufferLength < .ofNat data.length then none else some data⟩)

section Outcome
variable {bufferLength : UInt32} {replies : List DescriptorReply}
  {result : Except NtStatus DescriptorCopy} {buffer : List UInt8}

theorem AllOrNothing.error (descriptor : Option (List UInt8)) (status : NtStatus) :
    AllOrNothing bufferLength descriptor (.error status) buffer where
  complete := nofun
  tooSmall := nofun
  failed _ _ := rfl
  within := rfl

theorem AllOrNothing.untouched (descriptor : Option (List UInt8)) {n : UInt32}
    (hsmall : bufferLength < n) : AllOrNothing bufferLength descriptor (.ok ⟨n, none⟩) buffer where
  complete := by
    rintro _ ⟨⟩ hlarge
    exact absurd hsmall (UInt32.not_lt.mpr hlarge)
  tooSmall _ _ _ := rfl
  failed := nofun
  within := rfl

theorem AllOrNothing.whole {data : List UInt8} {n : UInt32} (hlength : data.length = n.toNat) :
    AllOrNothing bufferLength (some data)
      (.ok ⟨n, if bufferLength < n then none else some data⟩) buffer := by
  by_cases hsmall : bufferLength < n
  · rw [if_pos hsmall]
    exact .untouched (some data) hsmall
  · rw [if_neg hsmall]
    have hle : data.length ≤ bufferLength.toNat := by
      rw [hlength]
      exact UInt32.le_iff_toNat_le.mp (UInt32.not_lt.mp hsmall)
    refine ⟨?_, ?_, nofun, DescriptorCopy.drop_store hle⟩
    · rintro _ ⟨⟩ -
      refine ⟨data, rfl, hlength, ?_⟩
      rw [← hlength]
      exact List.take_left
    · rintro _ ⟨⟩ hsmall'
      exact absurd hsmall' hsmall

/-- A copy is all or nothing when the descriptor has the reported length. -/
theorem Outcome.allOrNothing_iff (h : Outcome bufferLength replies result) :
    (∀ buffer, AllOrNothing bufferLength (obtained replies) result buffer) ↔
      SameLength bufferLength replies := by
  cases h with
  | failed status h =>
      refine ⟨fun _ n data hreported hlarge hobtained hlength => ?_, fun _ buffer => .error _ status⟩
      exact absurd hlength (h n data hreported hlarge hobtained)
  | tooSmall n hreported hsmall =>
      refine ⟨fun _ n' data hreported' hlarge _ _ => ?_, fun _ buffer => .untouched _ hsmall⟩
      obtain rfl : n = n' := Option.some.inj (hreported.symm.trans hreported')
      exact absurd hsmall (UInt32.not_lt.mpr hlarge)
  | synthesized data hreported hobtained hlength =>
      refine ⟨fun _ n data' hreported' => ?_, fun _ buffer => ?_⟩
      · rw [hreported] at hreported'
        cases hreported'
      · rw [hobtained]
        exact .whole (UInt32.toNat_ofNat_of_lt' hlength).symm
  | copied n data hreported hlarge hobtained hlength =>
      constructor
      · intro hall n' data' hreported' _ hobtained' _
        obtain rfl : n = n' := Option.some.inj (hreported.symm.trans hreported')
        obtain ⟨copied, hcopied, hsame, -⟩ := (hall []).complete _ rfl hlarge
        rwa [Option.some.inj (hobtained'.symm.trans hcopied)]
      · intro hsame buffer
        have hdata : data.length = n.toNat := hsame n data hreported hlarge hobtained hlength
        rw [hobtained, hdata, UInt32.ofNat_toNat]
        exact .whole hdata

end Outcome

/-! ## The replies of a routine -/

/-- The result of a routine fits the replies along it. -/
abbrev FitsReplies {α : Type} (Q : List DescriptorReply → α → Prop) (p : Routine α) : Prop :=
  p.Yields Emits fun evs a => Q (descriptorReplies evs) a

namespace FitsReplies
variable {α γ : Type} {Q : List DescriptorReply → α → Prop}

theorem pure {a : α} (h : Q [] a) : FitsReplies Q (Pure.pure a : Routine α) := Prog.Yields.pure h

theorem fs {c : FsCall} {f : c.Reply → Routine α}
    (hf : ∀ reply, FitsReplies (fun replies => Q (c.descriptorReplies reply ++ replies)) (f reply)) :
    FitsReplies Q (Routine.fs c >>= f) := by
  intro evs a ht
  obtain ⟨reply, es, rest, hfs, hrest, rfl⟩ := Prog.traces_bind.mp ht
  obtain ⟨notes, own, hnotes, hown, rfl⟩ := Prog.traces_perform.mp hfs
  rw [show own = [.call c reply] from hown, descriptorReplies_append, descriptorReplies_append,
    descriptorReplies_notes hnotes, descriptorReplies_call, List.nil_append]
  exact hf reply rest a hrest

/-- A request for the descriptor; the probe is the one of size 0. -/
theorem getxattr {req : Request} {ino : INodeNo} {name : OsStr} {size : UInt32}
    {f : ReplyXattr → Routine α}
    (hf : ∀ status sizeHint asked, asked.data? = Reply.toOption status →
      (size = 0 → asked = .probe ⟨status, sizeHint⟩) →
        FitsReplies (fun replies => Q (asked :: replies)) (f ⟨status, sizeHint⟩)) :
    FitsReplies Q (Routine.fs (.getxattr req ino name size) >>= f) := by
  refine fs fun reply : ReplyXattr => ?_
  obtain ⟨status, sizeHint⟩ := reply
  refine hf status sizeHint (if size = 0 then .probe ⟨status, sizeHint⟩
    else .fetch ⟨status, sizeHint⟩) ?_ fun hsize => if_pos hsize
  split_ifs <;> rcases status with _ | ⟨err⟩ | ⟨data⟩ <;> rfl

theorem ite {p : Prop} [Decidable p] {q q' : Routine α} (hq : p → FitsReplies Q q)
    (hq' : ¬ p → FitsReplies Q q') : FitsReplies Q (if p then q else q') := by
  split_ifs with h
  · exact hq h
  · exact hq' h

theorem ite_bind {p : Prop} [Decidable p] {q q' : Routine γ} {f : γ → Routine α}
    (hq : p → FitsReplies Q (q >>= f)) (hq' : ¬ p → FitsReplies Q (q' >>= f)) :
    FitsReplies Q ((if p then q else q') >>= f) := by
  split_ifs with h
  · exact hq h
  · exact hq' h

/-- A path walk asks for no descriptor. -/
theorem after {p : Routine γ} (hp : Walks p) {f : γ → Routine α} (hf : ∀ v, FitsReplies Q (f v)) :
    FitsReplies Q (p >>= f) := by
  have hnone : p.EveryTrace Emits fun evs => descriptorReplies evs = [] := by
    refine Prog.EveryTrace.of_performs (P := fun evs => descriptorReplies evs = [])
      ⟨rfl, fun h h' => ?_⟩ (fun e r evs hwalk he => ?_) hp
    · rw [descriptorReplies_append, h, h', List.append_nil]
    · obtain ⟨notes, own, hnotes, hown, rfl⟩ := he
      rw [descriptorReplies_append, descriptorReplies_notes hnotes, List.nil_append]
      cases e with
      | fs c =>
          rw [show own = [.call c r] from hown]
          cases c <;> first | rfl | cases hwalk
      | table o =>
          obtain ⟨now, rfl⟩ := hown
          rfl
      | deliver req o =>
          obtain ⟨now, forgets, rfl⟩ := hown
          refine List.flatMap_eq_nil_iff.mpr fun ev hev => ?_
          rcases List.mem_cons.mp hev with rfl | hev
          · rfl
          · obtain ⟨f, -, rfl⟩ := List.mem_map.mp hev
            rfl
      | openState o => cases hwalk
      | fillFindData data => cases hwalk
      | fillFindStreamData data => cases hwalk
  intro evs a ht
  obtain ⟨v, es, rest, hes, hrest, rfl⟩ := Prog.traces_bind.mp ht
  rw [descriptorReplies_append, hnone es v hes]
  exact hf v rest a hrest

theorem withResolved {pf : Platform} {req : Request} {path : U16CStr} {context : AdapterContext}
    {Q : List DescriptorReply → Except NtStatus α → Prop}
    {f : AdapterContext → Routine (Except NtStatus α)} (herror : ∀ status, Q [] (.error status))
    (hf : ∀ ctx, FitsReplies Q (f ctx)) : FitsReplies Q (withResolved pf req path context f) := by
  have hresolve : Walks (resolveContextOrPath pf req path context) := by
    unfold resolveContextOrPath
    cases resolveCtx path context with
    | some ctx => exact .pure _
    | none =>
        refine .bind (Walks.resolvePathIno req pf _) fun resolved => ?_
        cases resolved <;> exact .pure _
  refine after hresolve fun resolved => ?_
  cases resolved with
  | error err => exact pure (herror _)
  | ok ctx => exact hf ctx

end FitsReplies

/-! ## The callback -/

section Callback
variable {bufferLength : UInt32}

/-- What follows the replies from which a descriptor is obtained, or none. -/
theorem Outcome.synthesizedOr {replies : List DescriptorReply} (hreported : reported replies = none)
    {data : List UInt8} (hobtained : obtained replies = some data) :
    Outcome bufferLength replies (copySecurityDescriptor data true bufferLength) := by
  by_cases hlength : data.length < 2 ^ 32
  · rw [copySecurityDescriptor_ok hlength]
    exact .synthesized data hreported hobtained hlength
  · rw [copySecurityDescriptor_error hlength]
    refine .failed _ fun n data' hreported' => ?_
    rw [hreported] at hreported'
    cases hreported'

theorem Outcome.copiedOr {replies : List DescriptorReply} {n : UInt32}
    (hreported : reported replies = some n) (hlarge : n ≤ bufferLength) {data : List UInt8}
    (hobtained : obtained replies = some data) :
    Outcome bufferLength replies ((copySecurityDescriptor data true bufferLength).map fun copy =>
      ⟨n, copy.written⟩) := by
  by_cases hlength : data.length < 2 ^ 32
  · rw [copySecurityDescriptor_ok hlength]
    exact .copied n data hreported hlarge hobtained hlength
  · rw [copySecurityDescriptor_error hlength]
    refine .failed _ fun n' data' _ _ hobtained' => ?_
    rwa [← Option.some.inj (hobtained.symm.trans hobtained')]

theorem Outcome.failedOf {replies : List DescriptorReply} (status : NtStatus)
    (h : reported replies = none ∨ obtained replies = none) :
    Outcome bufferLength replies (.error status) := by
  refine .failed status fun n data hreported _ hobtained => ?_
  rcases h with h | h
  · rw [h] at hreported
    cases hreported
  · rw [h] at hobtained
    cases hobtained

/-- The descriptor made up from attributes, after replies that obtained none. -/
theorem fitsReplies_synthesized {α : Type} (Q : List DescriptorReply → Except NtStatus α → Prop)
    (replies : List DescriptorReply) (req : Request) (ino : INodeNo) (fh : FileHandle)
    {f : List UInt8 → Routine (Except NtStatus α)}
    (herror : ∀ status reply, DescriptorReply.data? (.attr reply) = none →
      Q (replies ++ [.attr reply]) (.error status))
    (hf : ∀ data reply, DescriptorReply.data? (.attr reply) = some data →
      FitsReplies (fun rest => Q (replies ++ .attr reply :: rest)) (f data)) :
    FitsReplies (fun rest => Q (replies ++ rest)) (do
      let data ← synthesizedSecurityDescriptorFromFs req ino fh
      onOk data f) := by
  refine .fs fun status => ?_
  rcases status with _ | ⟨err⟩ | ⟨payload⟩
  · exact .pure (herror _ none rfl)
  · exact .pure (herror _ (some (.error err)) rfl)
  · exact hf _ (some (.ok payload)) rfl

theorem obtained_concat (replies : List DescriptorReply) (reply : DescriptorReply) :
    obtained (replies ++ [reply]) = reply.data? := by
  rw [obtained, List.getLast?_concat]
  rfl

theorem reported_probe {probe : ReplyXattr} {data : List UInt8}
    (hprobe : probe.status = some (.ok data)) (rest : List DescriptorReply) :
    reported (.probe probe :: rest) = (xattrReportedLen data.length probe.sizeHint).toOption := by
  rw [reported, hprobe]
  rfl

theorem fitsReplies_fetched (req : Request) (resolved : AdapterContext) (probe : ReplyXattr)
    {data : List UInt8} (hprobe : probe.status = some (.ok data)) :
    FitsReplies (fun rest => Outcome bufferLength (.probe probe :: rest))
      (copyExistingOrFetchedSecurityDescriptor req resolved data probe.sizeHint true bufferLength) := by
  have hreported := reported_probe hprobe
  unfold copyExistingOrFetchedSecurityDescriptor
  cases hneeded : xattrReportedLen data.length probe.sizeHint with
  | error status =>
      rw [hneeded] at hreported
      exact .pure (.failedOf status (.inl (hreported [])))
  | ok n =>
      rw [hneeded] at hreported
      dsimp only [onOk]
      by_cases hsmall : bufferLength < n
      · rw [if_pos hsmall]
        exact .pure (.tooSmall n (hreported []) hsmall)
      rw [if_neg hsmall]
      have hlarge := UInt32.not_lt.mp hsmall
      unfold fetchSecurityDescriptorData
      cases xattrNeedsDataFetch data probe.sizeHint with
      | none =>
          have hobtained : obtained [.probe probe] = some data := by
            rw [show [DescriptorReply.probe probe] = [] ++ [.probe probe] from rfl, obtained_concat,
              DescriptorReply.data?, hprobe]
            rfl
          exact .pure (.copiedOr (hreported []) hlarge hobtained)
      | some fetchSize =>
          refine FitsReplies.getxattr fun status _ asked hasked _ => ?_
          rcases status with _ | ⟨err⟩ | ⟨fetched⟩
          · exact .pure (.failedOf _ (.inr ((obtained_concat [.probe probe] asked).trans hasked)))
          · refine FitsReplies.ite_bind (fun _ => ?_) fun _ => ?_
            · refine fitsReplies_synthesized (Outcome bufferLength) [.probe probe, asked] req resolved.ino
                resolved.fh (fun status reply hnone => ?_) fun made reply hmade => ?_
              · exact .failedOf status (.inr ((obtained_concat [.probe probe, asked] _).trans hnone))
              · exact .pure (.copiedOr (hreported _) hlarge
                  ((obtained_concat [.probe probe, asked] _).trans hmade))
            · exact .pure (.failedOf _ (.inr ((obtained_concat [.probe probe] asked).trans hasked)))
          · exact .pure (.copiedOr (hreported _) hlarge
              ((obtained_concat [.probe probe] asked).trans hasked))

theorem getFileSecurity_outcome (pf : Platform) (fileName : U16CStr) (context : AdapterContext) :
    FitsReplies (Outcome bufferLength) (getFileSecurity pf fileName true bufferLength context) := by
  refine .withResolved (fun status => .failedOf status (.inl rfl)) fun resolved =>
    FitsReplies.getxattr fun status sizeHint asked _ hprobe => ?_
  obtain rfl := hprobe rfl
  refine .after (Walks.effect rfl) fun _ => ?_
  rcases status with _ | ⟨err⟩ | ⟨data⟩
  · exact .pure (.failedOf _ (.inl rfl))
  · refine FitsReplies.ite (fun _ => ?_) fun _ => .pure (.failedOf _ (.inl rfl))
    refine fitsReplies_synthesized (Outcome bufferLength) [.probe ⟨some (.error err), sizeHint⟩] _
      resolved.ino resolved.fh
      (fun status reply _ => .failedOf status (.inl rfl)) fun made reply hmade => ?_
    exact .pure (.synthesizedOr rfl ((obtained_concat [_] _).trans hmade))
  · exact fitsReplies_fetched _ resolved ⟨some (.ok data), sizeHint⟩ rfl

end Callback

/-- The replies of the file system to one `get_file_security`. -/
def World.descriptorReplies {β φ : Type} (pf : Platform) (h : Host β φ) (notices : Notices)
    (fileName : U16CStr) (bufferLength : UInt32) (context : AdapterContext) (w : World β φ) :
    List DescriptorReply :=
  Confuse.descriptorReplies
    (w.newEvents pf h notices (getFileSecurity pf fileName true bufferLength context))

/-- With a buffer, `get_file_security` is all or nothing exactly when a descriptor that it obtains for
a large enough buffer has the length that the probe reported. -/
theorem World.file_security_all_or_nothing_iff {β φ : Type} (pf : Platform) (h : Host β φ)
    (notices : Notices) (fileName : U16CStr) (bufferLength : UInt32) (context : AdapterContext)
    (w : World β φ) :
    (∀ buffer, AllOrNothing bufferLength
        (obtained (w.descriptorReplies pf h notices fileName bufferLength context))
        ((getFileSecurity pf fileName true bufferLength context).run (machine pf h notices) w).1
        buffer) ↔
      SameLength bufferLength (w.descriptorReplies pf h notices fileName bufferLength context) := by
  have houtcome := getFileSecurity_outcome pf fileName context _ _
    (newEvents_traces pf h notices (getFileSecurity pf fileName true bufferLength context) w)
  exact houtcome.allOrNothing_iff

/-- A file system that reports four bytes and delivers three. -/
def shrinkingDescriptor : (c : FsCall) → c.Reply
  | .getxattr _ _ _ size => if size = 0 then ReplyXattr.size 4 else ReplyXattr.data [1, 2, 3]
  | c => c.unanswered

theorem World.descriptor_copied_short :
    ¬ ∀ {β φ : Type} (pf : Platform) (h : Host β φ) (notices : Notices) (fileName : U16CStr)
      (bufferLength : UInt32) (context : AdapterContext) (w : World β φ) (buffer : List UInt8),
      AllOrNothing bufferLength
        (obtained (w.descriptorReplies pf h notices fileName bufferLength context))
        ((getFileSecurity pf fileName true bufferLength context).run (machine pf h notices) w).1
        buffer := by
  intro hall
  have hshort := hall .ascii (.stateless shrinkingDescriptor) undisturbed fileF 8 directoryF
    World.mounted (List.replicate 8 0)
  have hresult : ((getFileSecurity .ascii fileF true 8 directoryF).run
      (machine .ascii (.stateless shrinkingDescriptor) undisturbed) World.mounted).1
      = .ok ⟨4, some [1, 2, 3]⟩ := rfl
  have hobtained : obtained (World.mounted.descriptorReplies .ascii (.stateless shrinkingDescriptor)
      undisturbed fileF 8 directoryF) = some [1, 2, 3] := rfl
  obtain ⟨data, hdata, hlength, -⟩ := hshort.complete _ hresult (by decide)
  obtain rfl : [1, 2, 3] = data := Option.some.inj (hobtained.symm.trans hdata)
  exact absurd hlength (by decide)

end Confuse
