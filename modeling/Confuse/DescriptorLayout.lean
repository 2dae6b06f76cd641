import Confuse.ByteReader
import Confuse.Helpers
import Mathlib.Data.Nat.Bitwise

/-!
# The layout of a security descriptor

A self-relative security descriptor has a header with the offsets of its parts, two SIDs and an access
list whose entries announce their sizes. The descriptor that is made up from the attributes of a file
is read back with a reader of this layout.
-/

namespace Confuse

open ByteReader

/-! ## The layout -/

/-- `S-1-authority-subAuthorities`. -/
structure Sid where
  authority : ℕ
  subAuthorities : List UInt32
  deriving DecidableEq

/-- An entry that allows access. -/
structure AllowedAccess where
  mask : UInt32
  sid : Sid
  deriving DecidableEq

structure DescriptorHeader where
  control : UInt16
  owner : UInt32
  group : UInt32
  sacl : UInt32
  dacl : UInt32

structure SecurityDescriptor where
  owner : Sid
  group : Sid
  dacl : List AllowedAccess
  /-- Where the header and the three parts begin and end. -/
  parts : List (ℕ × ℕ)

/-- `SE_DACL_PRESENT` and `SE_SELF_RELATIVE`. -/
def selfRelativeWithDacl : UInt16 := 0x8004

def readSid : ByteReader Sid := do
  let revision ← byte
  check (revision = 1)
  let subAuthorityCount ← byte
  check (subAuthorityCount ≤ 15)
  let authority ← bytes 6
  let subAuthorities ← times u32 subAuthorityCount.toNat
  pure ⟨beValue authority, subAuthorities⟩

def readAce : ByteReader AllowedAccess := do
  let aceType ← byte
  check (aceType = 0)
  let aceFlags ← byte
  check (aceFlags = 0)
  let aceSize ← u16
  check (4 ≤ aceSize.toNat)
  within (aceSize.toNat - 4) do
    let mask ← u32
    let sid ← readSid
    pure ⟨mask, sid⟩

def readAcl : ByteReader (List AllowedAccess) := do
  let aclRevision ← byte
  check (aclRevision = 2)
  let reserved ← byte
  check (reserved = 0)
  let aclSize ← u16
  check (8 ≤ aclSize.toNat)
  let aceCount ← u16
  let reserved ← u16
  check (reserved = 0)
  within (aclSize.toNat - 8) (times readAce aceCount.toNat)

def readHeader : ByteReader DescriptorHeader := do
  let revision ← byte
  check (revision = 1)
  let reserved ← byte
  check (reserved = 0)
  let control ← u16
  let owner ← u32
  let group ← u32
  let sacl ← u32
  let dacl ← u32
  pure { control, owner, group, sacl, dacl }

/-- Read a descriptor that has an owner, a group, a list of allowed accesses and nothing else. -/
def readDescriptor (buffer : List UInt8) : Option SecurityDescriptor := do
  let (header, headerEnd) ← readAt buffer 0 readHeader
  if header.control = selfRelativeWithDacl ∧ header.sacl = 0 then
    let (owner, ownerEnd) ← readAt buffer header.owner.toNat readSid
    let (group, groupEnd) ← readAt buffer header.group.toNat readSid
    let (dacl, daclEnd) ← readAt buffer header.dacl.toNat readAcl
    some { owner, group, dacl, parts := [(0, headerEnd), (header.owner.toNat, ownerEnd),
      (header.group.toNat, groupEnd), (header.dacl.toNat, daclEnd)] }
  else none

/-! ## Integers and SIDs -/

theorem reads_leBytes16 (v : UInt16) : Reads u16 (leBytes16 v) v := .u16 rfl (leValue_uint16 v)

theorem reads_leBytes32 (v : UInt32) : Reads u32 (leBytes32 v) v := .u32 rfl (leValue_uint32 v)

/-- `S-1-22-kind-id`, which stands for a Unix user (kind 1) or a Unix group (kind 2). -/
def Sid.unix (kind id : UInt32) : Sid := ⟨22, [kind, id]⟩

/-- `S-1-1-0`, which stands for everyone. -/
def Sid.world : Sid := ⟨1, [0]⟩

theorem reads_unixSid (kind id : UInt32) : Reads readSid (unixSid kind id) (.unix kind id) := by
  have hsubs : Reads (times u32 2) (leBytes32 kind ++ (leBytes32 id ++ [])) [kind, id] :=
    .times_succ (reads_leBytes32 kind) (.times_succ (reads_leBytes32 id) (.times_zero u32))
  have hbytes : unixSid kind id = [1] ++ ([2] ++ ([0, 0, 0, 0, 0, 22]
      ++ (leBytes32 kind ++ (leBytes32 id ++ []) ++ []))) := by simp [unixSid]
  rw [hbytes]
  exact .bind (.byte 1) (.next (.check rfl) (.bind (.byte 2) (.next (.check (by decide))
    (.bind (.bytes rfl) (.bind hsubs (.pure (Sid.unix kind id)))))))

theorem reads_worldSid : Reads readSid worldSid .world := by
  have hsubs : Reads (times u32 1) (leBytes32 0 ++ []) [0] :=
    .times_succ (reads_leBytes32 0) (.times_zero u32)
  have hbytes : worldSid = [1] ++ ([1] ++ ([0, 0, 0, 0, 0, 1] ++ (leBytes32 0 ++ [] ++ []))) := rfl
  rw [hbytes]
  exact .bind (.byte 1) (.next (.check rfl) (.bind (.byte 1) (.next (.check (by decide))
    (.bind (.bytes rfl) (.bind hsubs (.pure Sid.world))))))

/-! ## The access list -/

theorem reads_allowAce {access : UInt32} (haccess : access ≠ 0) {sid : List UInt8} {s : Sid}
    (hsid : Reads readSid sid s) (hlength : sid.length < 2 ^ 15) :
    Reads readAce (allowAce access sid) ⟨access, s⟩ := by
  have hsize : (UInt16.ofNat (8 + sid.length)).toNat = 8 + sid.length := by
    rw [UInt16.toNat_ofNat']
    omega
  have hbody : (leBytes32 access ++ (sid ++ [])).length
      = (UInt16.ofNat (8 + sid.length)).toNat - 4 := by
    rw [hsize]
    simp [leBytes32]
    omega
  have hbytes : allowAce access sid = [0] ++ ([0] ++ (leBytes16 (.ofNat (8 + sid.length))
      ++ (leBytes32 access ++ (sid ++ [])))) := by
    simp [allowAce, haccess]
  rw [hbytes]
  exact .bind (.byte 0) (.next (.check rfl) (.bind (.byte 0) (.next (.check rfl)
    (.bind (reads_leBytes16 _) (.next (.check (by omega))
      (.within hbody (.bind (reads_leBytes32 access) (.bind hsid (.pure _)))))))))

/-- The entries of the classes that are allowed something are read in order. -/
theorem reads_aces (classes : List (UInt32 × List UInt8 × Sid))
    (hclasses : ∀ c ∈ classes, Reads readSid c.2.1 c.2.2 ∧ c.2.1.length < 2 ^ 15) :
    let entries := classes.map fun c => allowAce c.1 c.2.1
    Reads (times readAce (entries.filter fun ace => ace ≠ []).length) entries.flatten
      (classes.filterMap fun c => if c.1 = 0 then none else some ⟨c.1, c.2.2⟩) := by
  induction classes with
  | nil => exact .times_zero readAce
  | cons c classes ih =>
      have hrest := ih fun c' hc' => hclasses c' (List.mem_cons_of_mem c hc')
      obtain ⟨hsid, hlength⟩ := hclasses c List.mem_cons_self
      by_cases haccess : c.1 = 0
      · have hnone : allowAce 0 c.2.1 = [] := if_pos rfl
        simpa [hnone, haccess] using hrest
      · have hsome : allowAce c.1 c.2.1 ≠ [] := by simp [allowAce, haccess]
        simpa [hsome, haccess] using Reads.times_succ (reads_allowAce haccess hsid hlength) hrest

/-! ## The mask of a class -/

/-- The access that a class of the permission bits allows, by its three bits above `low`. -/
def classAccess (perm : UInt16) (low : ℕ) : Option UInt32 :=
  let read := perm.toNat.testBit (low + 2)
  let write := perm.toNat.testBit (low + 1)
  let execute := perm.toNat.testBit low
  if read || write || execute then
    some ((if read then FILE_GENERIC_READ else 0) ||| (if write then FILE_GENERIC_WRITE else 0) |||
      (if execute then FILE_GENERIC_EXECUTE else 0))
  else none

/-- Masking the bits of a class with one of them. -/
theorem class_bit (perm shift : UInt16) (hshift : shift.toNat < 16) (bit : UInt16) (i : ℕ) (hi : i < 3)
    (hbit : bit.toNat = 2 ^ i) :
    (perm >>> shift) &&& 0o7 &&& bit ≠ 0 ↔ perm.toNat.testBit (shift.toNat + i) = true := by
  have hseven : (7 &&& 2 ^ i : ℕ) = 2 ^ i := by
    rcases i with _ | _ | _ | i <;> first | rfl | omega
  have hnat : ((perm >>> shift) &&& 0o7 &&& bit).toNat
      = (perm.toNat.testBit (shift.toNat + i)).toNat * 2 ^ i := by
    rw [UInt16.toNat_and, UInt16.toNat_and, UInt16.toNat_shiftRight, hbit,
      Nat.mod_eq_of_lt hshift, Nat.and_assoc]
    change perm.toNat >>> shift.toNat &&& (7 &&& 2 ^ i) = _
    rw [hseven, Nat.and_two_pow, Nat.testBit_shiftRight]
  rw [Ne, ← UInt16.toNat_inj, hnat]
  cases perm.toNat.testBit (shift.toNat + i) <;> simp

theorem classAccess_eq (perm shift : UInt16) (hshift : shift.toNat < 16) :
    classAccess perm shift.toNat
      = if permToFileAccess perm shift = 0 then none else some (permToFileAccess perm shift) := by
  have hread := class_bit perm shift hshift 0o4 2 (by decide) rfl
  have hwrite := class_bit perm shift hshift 0o2 1 (by decide) rfl
  have hexecute := class_bit perm shift hshift 0o1 0 (by decide) rfl
  unfold classAccess permToFileAccess
  simp only [hread, hwrite, hexecute, Nat.add_zero]
  cases perm.toNat.testBit (shift.toNat + 2) <;> cases perm.toNat.testBit (shift.toNat + 1) <;>
    cases perm.toNat.testBit shift.toNat <;> rfl

/-! ## The descriptor of a file -/

/-- The classes of a file, each with its lowest permission bit. -/
def FileAttr.classes (attr : FileAttr) : List (ℕ × Sid) :=
  [(6, .unix 1 attr.uid), (3, .unix 2 attr.gid), (0, .world)]

/-- The accesses that the permission bits of a file allow. -/
def FileAttr.allowedAccesses (attr : FileAttr) : List AllowedAccess :=
  attr.classes.filterMap fun c => (classAccess attr.perm c.1).map fun mask => ⟨mask, c.2⟩

/-- The entries of the access list. -/
def allowAces (attr : FileAttr) : List (List UInt8) :=
  [allowAce (permToFileAccess attr.perm 6) (unixSid 1 attr.uid),
    allowAce (permToFileAccess attr.perm 3) (unixSid 2 attr.gid),
    allowAce (permToFileAccess attr.perm 0) worldSid]

theorem reads_allowAces (attr : FileAttr) :
    Reads (times readAce ((allowAces attr).filter fun ace => ace ≠ []).length)
      (allowAces attr).flatten attr.allowedAccesses := by
  have hread := reads_aces [(permToFileAccess attr.perm 6, unixSid 1 attr.uid, Sid.unix 1 attr.uid),
    (permToFileAccess attr.perm 3, unixSid 2 attr.gid, Sid.unix 2 attr.gid),
    (permToFileAccess attr.perm 0, worldSid, Sid.world)] fun c hc => ?_
  · have haccess : ∀ shift : UInt16, shift.toNat < 16 → ∀ sid : Sid,
        (classAccess attr.perm shift.toNat).map (fun mask => AllowedAccess.mk mask sid)
          = if permToFileAccess attr.perm shift = 0 then none
            else some ⟨permToFileAccess attr.perm shift, sid⟩ := by
      intro shift hshift sid
      rw [classAccess_eq attr.perm shift hshift]
      split_ifs <;> rfl
    have hclasses : attr.allowedAccesses = [(permToFileAccess attr.perm 6, unixSid 1 attr.uid,
        Sid.unix 1 attr.uid), (permToFileAccess attr.perm 3, unixSid 2 attr.gid, Sid.unix 2 attr.gid),
        (permToFileAccess attr.perm 0, worldSid, Sid.world)].filterMap fun c =>
          if c.1 = 0 then none else some ⟨c.1, c.2.2⟩ := by
      simp only [FileAttr.allowedAccesses, FileAttr.classes, List.filterMap_cons,
        List.filterMap_nil, ← haccess 6 (by decide), ← haccess 3 (by decide), ← haccess 0 (by decide)]
      rfl
    rw [hclasses]
    exact hread
  · simp only [List.mem_cons, List.not_mem_nil, or_false] at hc
    rcases hc with rfl | rfl | rfl
    · exact ⟨reads_unixSid 1 attr.uid, by simp [unixSid, leBytes32]⟩
    · exact ⟨reads_unixSid 2 attr.gid, by simp [unixSid, leBytes32]⟩
    · exact ⟨reads_worldSid, by simp [worldSid, leBytes32]⟩

theorem allowAce_length_le (access : UInt32) (sid : List UInt8) :
    (allowAce access sid).length ≤ 8 + sid.length := by
  unfold allowAce
  split_ifs
  · exact Nat.zero_le _
  · simp only [leBytes16, leBytes32, List.length_append, List.length_cons, List.length_nil]
    omega

/-- The access list of the descriptor. -/
def accessList (attr : FileAttr) : List UInt8 :=
  [2, 0] ++ leBytes16 (.ofNat (8 + (allowAces attr).flatten.length)) ++
    leBytes16 (.ofNat ((allowAces attr).filter fun ace => ace ≠ []).length) ++ leBytes16 0 ++
    (allowAces attr).flatten

theorem reads_accessList (attr : FileAttr) :
    Reads readAcl (accessList attr) attr.allowedAccesses := by
  have hlength : (allowAces attr).flatten.length ≤ 72 := by
    have howner := allowAce_length_le (permToFileAccess attr.perm 6) (unixSid 1 attr.uid)
    have hgroup := allowAce_length_le (permToFileAccess attr.perm 3) (unixSid 2 attr.gid)
    have hworld := allowAce_length_le (permToFileAccess attr.perm 0) worldSid
    simp only [unixSid, worldSid, leBytes32, List.length_append, List.length_cons,
      List.length_nil] at howner hgroup hworld
    simp only [allowAces, unixSid, worldSid, leBytes32, List.flatten_cons, List.flatten_nil,
      List.length_append, List.length_nil]
    omega
  have hsize : (UInt16.ofNat (8 + (allowAces attr).flatten.length)).toNat
      = 8 + (allowAces attr).flatten.length := by
    rw [UInt16.toNat_ofNat']
    omega
  have hcount : (UInt16.ofNat ((allowAces attr).filter fun ace => ace ≠ []).length).toNat
      = ((allowAces attr).filter fun ace => ace ≠ []).length := by
    have hthree : ((allowAces attr).filter fun ace => ace ≠ []).length ≤ 3 :=
      List.length_filter_le _ _
    rw [UInt16.toNat_ofNat']
    omega
  have haces := reads_allowAces attr
  rw [← hcount] at haces
  have hbytes : accessList attr = [2] ++ ([0] ++ (leBytes16 (.ofNat (8 + (allowAces attr).flatten.length))
      ++ (leBytes16 (.ofNat ((allowAces attr).filter fun ace => ace ≠ []).length) ++ (leBytes16 0
      ++ (allowAces attr).flatten)))) := by
    simp only [accessList, List.append_assoc, List.cons_append, List.nil_append]
  rw [hbytes]
  exact .bind (.byte 2) (.next (.check rfl) (.bind (.byte 0) (.next (.check rfl)
    (.bind (reads_leBytes16 _) (.next (.check (by omega)) (.bind (reads_leBytes16 _)
      (.bind (reads_leBytes16 0) (.next (.check rfl) (.within (by omega) haces)))))))))

/-- The header of the descriptor. -/
def descriptorHeader : List UInt8 :=
  [1, 0] ++ leBytes16 selfRelativeWithDacl ++ leBytes32 20 ++ leBytes32 36 ++ leBytes32 0 ++ leBytes32 52

theorem reads_descriptorHeader :
    Reads readHeader descriptorHeader ⟨selfRelativeWithDacl, 20, 36, 0, 52⟩ := by
  have hbytes : descriptorHeader = [1] ++ ([0] ++ (leBytes16 selfRelativeWithDacl ++ (leBytes32 20
      ++ (leBytes32 36 ++ (leBytes32 0 ++ (leBytes32 52 ++ [])))))) := rfl
  rw [hbytes]
  exact .bind (.byte 1) (.next (.check rfl) (.bind (.byte 0) (.next (.check rfl)
    (.bind (reads_leBytes16 _) (.bind (reads_leBytes32 20) (.bind (reads_leBytes32 36)
      (.bind (reads_leBytes32 0) (.bind (reads_leBytes32 52) (.pure _)))))))))

/-- The descriptor is its header and its three parts, one after the other. -/
theorem synthesizedSecurityDescriptor_eq (attr : FileAttr) :
    synthesizedSecurityDescriptor attr = descriptorHeader ++ (unixSid 1 attr.uid
      ++ (unixSid 2 attr.gid ++ accessList attr)) := by
  simp only [synthesizedSecurityDescriptor, descriptorHeader, accessList, allowAces,
    List.append_assoc]
  rfl

theorem readDescriptor_of_parts {buffer : List UInt8} {header : DescriptorHeader}
    {headerEnd ownerEnd groupEnd daclEnd : ℕ} {owner group : Sid} {dacl : List AllowedAccess}
    (hheader : readAt buffer 0 readHeader = some (header, headerEnd))
    (hcontrol : header.control = selfRelativeWithDacl ∧ header.sacl = 0)
    (howner : readAt buffer header.owner.toNat readSid = some (owner, ownerEnd))
    (hgroup : readAt buffer header.group.toNat readSid = some (group, groupEnd))
    (hdacl : readAt buffer header.dacl.toNat readAcl = some (dacl, daclEnd)) :
    readDescriptor buffer = some { owner, group, dacl, parts := [(0, headerEnd),
      (header.owner.toNat, ownerEnd), (header.group.toNat, groupEnd),
      (header.dacl.toNat, daclEnd)] } := by
  unfold readDescriptor
  simp only [hheader, howner, hgroup, hdacl, if_pos hcontrol, Option.bind_eq_bind, Option.bind_some]

/-- The descriptor made up for a file is read back as a whole: its parts fill the buffer, and it names
the owner, the group and, in order, the accesses that the permission bits allow. -/
theorem synthesized_descriptor_reads_back (attr : FileAttr) : ∃ descriptor : SecurityDescriptor,
    readDescriptor (synthesizedSecurityDescriptor attr) = some descriptor ∧
      Contiguous 0 descriptor.parts (synthesizedSecurityDescriptor attr).length ∧
      descriptor.owner = .unix 1 attr.uid ∧ descriptor.group = .unix 2 attr.gid ∧
      descriptor.dacl = attr.allowedAccesses := by
  generalize hbuffer : synthesizedSecurityDescriptor attr = buffer
  have hparts : buffer = descriptorHeader ++ (unixSid 1 attr.uid
      ++ (unixSid 2 attr.gid ++ accessList attr)) :=
    hbuffer.symm.trans (synthesizedSecurityDescriptor_eq attr)
  have hlength : buffer.length = 52 + (accessList attr).length := by
    rw [hparts, List.length_append, List.length_append, List.length_append]
    change 20 + (16 + (16 + _)) = _
    omega
  have hheader : readAt buffer 0 readHeader = some (⟨selfRelativeWithDacl, 20, 36, 0, 52⟩, 20) :=
    readAt_append reads_descriptorHeader (hparts.trans (List.nil_append _).symm) rfl
  have howner : readAt buffer 20 readSid = some (.unix 1 attr.uid, 36) :=
    readAt_append (reads_unixSid 1 attr.uid) hparts rfl
  have hgroup : readAt buffer 36 readSid = some (.unix 2 attr.gid, 52) := by
    have hbefore : buffer = (descriptorHeader ++ unixSid 1 attr.uid)
        ++ (unixSid 2 attr.gid ++ accessList attr) := by rw [hparts, List.append_assoc]
    exact readAt_append (reads_unixSid 2 attr.gid) hbefore rfl
  have hdacl : readAt buffer 52 readAcl
      = some (attr.allowedAccesses, 52 + (accessList attr).length) := by
    have hbefore : buffer = (descriptorHeader ++ (unixSid 1 attr.uid ++ unixSid 2 attr.gid))
        ++ (accessList attr ++ []) := by
      rw [hparts, List.append_nil, List.append_assoc, List.append_assoc]
    exact readAt_append (reads_accessList attr) hbefore rfl
  refine ⟨_, readDescriptor_of_parts hheader ⟨rfl, rfl⟩ howner hgroup hdacl, ?_, rfl, rfl, rfl⟩
  rw [hlength]
  exact ⟨rfl, by decide, rfl, by decide, rfl, by decide, rfl, Nat.le_add_right _ _, rfl⟩

end Confuse
