import Confuse.DescriptorLayout
import Confuse.ResolverOp

/-!
# Notifications on the wire

A notification is sent as a header of 16 bytes, which begins with the length of the whole message, and
a payload. Lengths are narrowed to 32 bits, and the length of the header is added to that of the payload
after it was narrowed. That addition panics on an overflow in a debug build and wraps in a release build.
Nothing else overflows: the capacities that the source computes are sums of lengths in memory and small
constants.
-/

namespace Confuse

open ByteReader

/-- `i64::to_le_bytes` is that of the `u64` with the same bits. -/
def leBytes64 (value : UInt64) : List UInt8 :=
  leBytes32 value.toUInt32 ++ leBytes32 (value >>> 32).toUInt32

/-- `u32::try_from`, with `Notifier::too_big_err`. -/
def u32TryFrom (n : ℕ) : Except IoError UInt32 :=
  if n < 2 ^ 32 then .ok (UInt32.ofNat n)
  else .error ⟨.other, "Data too large: out of range integral type conversion attempted".toList⟩

inductive Build
  | debug | release
  deriving DecidableEq, Repr

/-- `a + b`, or nothing when it panics. -/
def Build.add : Build → UInt32 → UInt32 → Option UInt32
  | .debug, a, b => if a.toNat + b.toNat < 2 ^ 32 then some (a + b) else none
  | .release, a, b => some (a + b)

inductive NotifyCode
  | poll | invalEntry | invalInode | store | delete
  deriving DecidableEq, Repr

def NotifyCode.num : NotifyCode → UInt32
  | .poll => 1
  | .invalInode => 2
  | .invalEntry => 3
  | .store => 4
  | .delete => 6

/-! ## Sending -/

/-- The messages handed to `ChannelSender::send` and what a call returns. -/
structure Delivery where
  sent : List (List UInt8)
  result : Except IoError Unit

def ChannelSender.send (_data : List UInt8) : Except IoError Unit := .ok ()

namespace Notification

/-- The two slices that `with_iovec` passes on. -/
def message (code : NotifyCode) (totalLen : UInt32) (payload : List UInt8) : List UInt8 :=
  leBytes32 totalLen ++ leBytes32 code.num ++ List.replicate 8 0 ++ payload

/-- `with_iovec` with the sender; nothing when it panics. -/
def send (build : Build) (code : NotifyCode) (payload : List UInt8) : Option Delivery :=
  match u32TryFrom payload.length with
  | .error err => some ⟨[], .error err⟩
  | .ok payloadLen =>
      (build.add payloadLen 16).map fun totalLen =>
        let bytes := message code totalLen payload
        ⟨[bytes], ChannelSender.send bytes⟩

/-- A missing entry is no error. -/
def ignoreNotFound : Except IoError Unit → Except IoError Unit
  | .error err => if err.kind = .notFound then .ok () else .error err
  | .ok () => .ok ()

def sendInval (build : Build) (code : NotifyCode) (payload : List UInt8) : Option Delivery :=
  (send build code payload).map fun delivery =>
    { delivery with result := ignoreNotFound delivery.result }

end Notification

/-! ## The calls of a notifier -/

inductive Notify
  | poll (kh : UInt64)
  | invalInode (ino : INodeNo) (off len : Int64)
  | invalEntry (parent : INodeNo) (name : OsStr)
  | store (ino : INodeNo) (offset : UInt64) (data : List UInt8)
  | delete (parent child : INodeNo) (name : OsStr)

namespace Notify

/-- What a call does to the resolver before it sends anything. -/
def resolverCall : Notify → Option NotifierCall
  | .invalInode ino _ _ => some (.invalInode ino)
  | .invalEntry parent name => some (.invalEntry parent name)
  | .delete parent child name => some (.delete parent child name)
  | _ => none

/-- The name with its length before it and a zero byte behind it. -/
def namePayload (name : List UInt8) : Except IoError (List UInt8) :=
  (u32TryFrom name.length).map fun namelen => leBytes32 namelen ++ leBytes32 0 ++ name ++ [0]

def payload : Notify → Except IoError (List UInt8)
  | .poll kh => .ok (leBytes64 kh)
  | .invalInode ino off len =>
      .ok (leBytes64 ino.raw ++ leBytes64 off.toUInt64 ++ leBytes64 len.toUInt64)
  | .invalEntry parent name =>
      (namePayload (utf8 name.toStringLossy)).map fun named => leBytes64 parent.raw ++ named
  | .store ino offset data =>
      (u32TryFrom data.length).map fun size =>
        leBytes64 ino.raw ++ leBytes64 offset ++ leBytes32 size ++ leBytes32 0 ++ data
  | .delete parent child name =>
      (namePayload (utf8 name.toStringLossy)).map fun named =>
        leBytes64 parent.raw ++ leBytes64 child.raw ++ named

def code : Notify → NotifyCode
  | .poll _ => .poll
  | .invalInode _ _ _ => .invalInode
  | .invalEntry _ _ => .invalEntry
  | .store _ _ _ => .store
  | .delete _ _ _ => .delete

/-- Only `poll` passes on every error of the sender. -/
def dispatch (build : Build) (call : Notify) : List UInt8 → Option Delivery :=
  match call with
  | .poll _ => Notification.send build call.code
  | _ => Notification.sendInval build call.code

def deliver (build : Build) (call : Notify) : Option Delivery :=
  match call.payload with
  | .error err => some ⟨[], .error err⟩
  | .ok payload => call.dispatch build payload

/-- A call of a notifier that may have a resolver. -/
def run (build : Build) (cf : CaseFold) (now : Instant) (resolver : Option PathResolver)
    (call : Notify) : Option Delivery × Option PathResolver :=
  (call.deliver build, resolver.map fun r => call.resolverCall.elim r fun update => update.apply cf now r)

/-! ## Exact framing -/

/-- At the offset of the length stand the length of the name, four bytes of padding, the name and the
zero byte that ends the payload. -/
def HoldsName (name : List UInt8) (offset : ℕ) (payload : List UInt8) : Prop :=
  leValue ((payload.drop offset).take 4) = name.length ∧ payload.drop (offset + 8) = name ++ [0]

/-- The lengths inside the payload. -/
def SizesExact (payload : List UInt8) : Notify → Prop
  | .poll _ => True
  | .invalInode _ _ _ => True
  | .invalEntry _ name => HoldsName (utf8 name.toStringLossy) 8 payload
  | .store _ _ data =>
      leValue ((payload.drop 16).take 4) = data.length ∧ payload.drop 24 = data
  | .delete _ _ name => HoldsName (utf8 name.toStringLossy) 16 payload

/-- The call fails and sends nothing, or it sends one message in which every length is right. -/
def Exact (call : Notify) (delivery : Delivery) : Prop :=
  ((∃ err, delivery.result = .error err) ∧ delivery.sent = []) ∨
    ∃ bytes, delivery.sent = [bytes] ∧ leValue (bytes.take 4) = bytes.length ∧
      call.SizesExact (bytes.drop 16)

/-- How long the payload of a call would be. -/
def payloadLength : Notify → ℕ
  | .poll _ => 8
  | .invalInode _ _ _ => 24
  | .invalEntry _ name => 17 + (utf8 name.toStringLossy).length
  | .store _ _ data => 24 + data.length
  | .delete _ _ name => 25 + (utf8 name.toStringLossy).length

theorem u32TryFrom_of_lt {n : ℕ} (hn : n < 2 ^ 32) : u32TryFrom n = .ok (UInt32.ofNat n) := if_pos hn

theorem u32TryFrom_of_le {n : ℕ} (hn : 2 ^ 32 ≤ n) :
    ∃ err, u32TryFrom n = .error err ∧ err.kind = .other := by
  unfold u32TryFrom
  rw [if_neg (Nat.not_lt.mpr hn)]
  exact ⟨_, rfl, rfl⟩

theorem leValue_leBytes32 (v : UInt32) : leValue (leBytes32 v) = v.toNat := leValue_uint32 v

theorem leValue_leBytes32_ofNat {n : ℕ} (hn : n < 2 ^ 32) : leValue (leBytes32 (UInt32.ofNat n)) = n := by
  rw [leValue_leBytes32, UInt32.toNat_ofNat_of_lt' hn]

/-- A name behind the numbers that stand before it. -/
theorem holdsName {name before : List UInt8} (hname : name.length < 2 ^ 32) :
    HoldsName name before.length
      (before ++ (leBytes32 (UInt32.ofNat name.length) ++ leBytes32 0 ++ name ++ [0])) := by
  constructor
  · rw [List.drop_left]
    exact leValue_leBytes32_ofNat hname
  · rw [List.drop_length_add_append]
    rfl

theorem namePayload_cases (before name : List UInt8) :
    (2 ^ 32 ≤ name.length ∧ ∃ err, (namePayload name).map (before ++ ·) = .error err) ∨
      ∃ payload, (namePayload name).map (before ++ ·) = .ok payload ∧
        payload.length = before.length + 9 + name.length ∧ HoldsName name before.length payload := by
  unfold namePayload
  by_cases hname : name.length < 2 ^ 32
  · right
    rw [u32TryFrom_of_lt hname]
    refine ⟨_, rfl, ?_, holdsName hname⟩
    simp only [List.length_append, leBytes32, List.length_cons, List.length_nil]
    omega
  · left
    obtain ⟨err, herr, -⟩ := u32TryFrom_of_le (Nat.not_lt.mp hname)
    rw [herr]
    exact ⟨Nat.not_lt.mp hname, err, rfl⟩

/-- Either a length inside the payload is out of range, or the payload is built and exact. -/
theorem payload_cases (call : Notify) :
    (2 ^ 32 ≤ call.payloadLength ∧ ∃ err, call.payload = .error err) ∨
      ∃ payload, call.payload = .ok payload ∧ payload.length = call.payloadLength ∧
        call.SizesExact payload := by
  cases call with
  | poll kh => exact .inr ⟨_, rfl, rfl, trivial⟩
  | invalInode ino off len => exact .inr ⟨_, rfl, rfl, trivial⟩
  | invalEntry parent name =>
      obtain ⟨hlong, err, herr⟩ | ⟨payload, hpayload, hlength, hname⟩ :=
        namePayload_cases (leBytes64 parent.raw) (utf8 name.toStringLossy)
      · exact .inl ⟨Nat.le_add_left_of_le hlong, err, herr⟩
      · exact .inr ⟨payload, hpayload, hlength, hname⟩
  | store ino offset data =>
      simp only [payload, payloadLength, SizesExact]
      by_cases hdata : data.length < 2 ^ 32
      · right
        rw [u32TryFrom_of_lt hdata]
        refine ⟨_, rfl, ?_, leValue_leBytes32_ofNat hdata, rfl⟩
        simp only [List.length_append, leBytes64, leBytes32, List.length_cons, List.length_nil]
      · left
        obtain ⟨err, herr, -⟩ := u32TryFrom_of_le (Nat.not_lt.mp hdata)
        rw [herr]
        exact ⟨by omega, err, rfl⟩
  | delete parent child name =>
      obtain ⟨hlong, err, herr⟩ | ⟨payload, hpayload, hlength, hname⟩ :=
        namePayload_cases (leBytes64 parent.raw ++ leBytes64 child.raw) (utf8 name.toStringLossy)
      · exact .inl ⟨Nat.le_add_left_of_le hlong, err, herr⟩
      · exact .inr ⟨payload, hpayload, hlength, hname⟩

theorem dispatch_cases (build : Build) (call : Notify) (payload : List UInt8) :
    call.dispatch build payload = Notification.send build call.code payload ∨
      call.dispatch build payload = Notification.sendInval build call.code payload := by
  cases call with
  | poll kh => exact .inl rfl
  | _ => exact .inr rfl

/-- What is sent when the payload fits in 32 bits. -/
theorem dispatch_of_lt (build : Build) (call : Notify) {payload : List UInt8}
    (hpayload : payload.length < 2 ^ 32) :
    call.dispatch build payload =
      (build.add (UInt32.ofNat payload.length) 16).map fun totalLen =>
        ⟨[Notification.message call.code totalLen payload], .ok ()⟩ := by
  have hsend : Notification.send build call.code payload =
      (build.add (UInt32.ofNat payload.length) 16).map fun totalLen =>
        ⟨[Notification.message call.code totalLen payload], .ok ()⟩ := by
    unfold Notification.send
    rw [u32TryFrom_of_lt hpayload]
    rfl
  obtain h | h := call.dispatch_cases build payload
  · rw [h, hsend]
  · rw [h, Notification.sendInval, hsend, Option.map_map]
    rfl

/-- A payload that is too long is an error, which is not that of a missing entry. -/
theorem dispatch_of_le (build : Build) (call : Notify) {payload : List UInt8}
    (hpayload : 2 ^ 32 ≤ payload.length) :
    ∃ err, call.dispatch build payload = some ⟨[], .error err⟩ := by
  obtain ⟨err, herr, hkind⟩ := u32TryFrom_of_le hpayload
  have hsend : Notification.send build call.code payload = some ⟨[], .error err⟩ := by
    unfold Notification.send
    rw [herr]
  refine ⟨err, ?_⟩
  obtain h | h := call.dispatch_cases build payload
  · rw [h, hsend]
  · rw [h, Notification.sendInval, hsend, Option.map_some, Notification.ignoreNotFound,
      if_neg (by simp [hkind])]

theorem deliver_of_le (build : Build) {call : Notify} (hcall : 2 ^ 32 ≤ call.payloadLength) :
    ∃ err, call.deliver build = some ⟨[], .error err⟩ := by
  unfold deliver
  obtain ⟨-, err, herr⟩ | ⟨payload, hpayload, hlength, -⟩ := call.payload_cases
  · rw [herr]
    exact ⟨err, rfl⟩
  · rw [hpayload]
    exact call.dispatch_of_le build (hlength.symm ▸ hcall)

theorem deliver_of_lt (build : Build) {call : Notify} (hcall : call.payloadLength < 2 ^ 32) :
    ∃ payload, payload.length = call.payloadLength ∧ call.SizesExact payload ∧
      call.deliver build =
        (build.add (UInt32.ofNat call.payloadLength) 16).map fun totalLen =>
          ⟨[Notification.message call.code totalLen payload], .ok ()⟩ := by
  obtain ⟨hlong, -⟩ | ⟨payload, hpayload, hlength, hsizes⟩ := call.payload_cases
  · exact absurd hcall (Nat.not_lt.mpr hlong)
  · refine ⟨payload, hlength, hsizes, ?_⟩
    unfold deliver
    rw [hpayload, ← hlength]
    exact call.dispatch_of_lt build (hlength.symm ▸ hcall)

theorem leValue_take_message (code : NotifyCode) (totalLen : UInt32) (payload : List UInt8) :
    leValue ((Notification.message code totalLen payload).take 4) = totalLen.toNat :=
  leValue_leBytes32 totalLen

theorem length_message (code : NotifyCode) (totalLen : UInt32) (payload : List UInt8) :
    (Notification.message code totalLen payload).length = payload.length + 16 := by
  simp only [Notification.message, List.length_append, List.length_replicate, leBytes32,
    List.length_cons, List.length_nil]
  omega

/-- The message is exact exactly when the total length did not wrap. -/
theorem exact_message_iff {call : Notify} {payload : List UInt8} (hsizes : call.SizesExact payload)
    (totalLen : UInt32) (result : Except IoError Unit) :
    call.Exact ⟨[Notification.message call.code totalLen payload], result⟩
      ↔ totalLen.toNat = payload.length + 16 := by
  constructor
  · rintro (⟨-, hnone⟩ | ⟨bytes, hbytes, hheader, -⟩)
    · cases hnone
    · cases hbytes
      rwa [leValue_take_message, length_message] at hheader
  · intro htotal
    refine .inr ⟨_, rfl, ?_, hsizes⟩
    rw [leValue_take_message, length_message, htotal]

theorem uint32_ofNat_add_toNat {n : ℕ} (hn : n < 2 ^ 32) :
    (UInt32.ofNat n + 16).toNat = (n + 16) % 2 ^ 32 := by
  rw [UInt32.toNat_add, UInt32.toNat_ofNat_of_lt' hn]
  rfl

/-- In either build, a call frames its message exactly unless the length of the payload is one of the
last sixteen that fit in 32 bits. -/
theorem deliver_exact_iff (build : Build) (call : Notify) :
    (∃ delivery, call.deliver build = some delivery ∧ call.Exact delivery) ↔
      call.payloadLength < 2 ^ 32 - 16 ∨ 2 ^ 32 ≤ call.payloadLength := by
  by_cases hcall : call.payloadLength < 2 ^ 32
  · obtain ⟨payload, hlength, hsizes, hdeliver⟩ := deliver_of_lt build hcall
    have htotal := uint32_ofNat_add_toNat hcall
    rw [hdeliver]
    constructor
    · rintro ⟨delivery, hadd, hexact⟩
      obtain ⟨totalLen, hadded, rfl⟩ := Option.map_eq_some_iff.mp hadd
      rw [exact_message_iff hsizes, hlength] at hexact
      have hbound := totalLen.toNat_lt
      omega
    · intro hshort
      have hadded : build.add (UInt32.ofNat call.payloadLength) 16 =
          some (UInt32.ofNat call.payloadLength + 16) := by
        cases build with
        | debug =>
            apply if_pos
            change (UInt32.ofNat call.payloadLength).toNat + 16 < 2 ^ 32
            rw [UInt32.toNat_ofNat_of_lt' hcall]
            omega
        | release => rfl
      refine ⟨_, by rw [hadded, Option.map_some], ?_⟩
      rw [exact_message_iff hsizes, htotal, hlength]
      omega
  · obtain ⟨err, herr⟩ := deliver_of_le build (Nat.not_lt.mp hcall)
    rw [herr]
    exact iff_of_true ⟨_, rfl, .inl ⟨⟨err, rfl⟩, rfl⟩⟩ (.inr (Nat.not_lt.mp hcall))

example : (Notify.store ⟨0x42⟩ 50 [0xde, 0xad, 0xbe, 0xef]).deliver .debug =
    some ⟨[[0x2c, 0, 0, 0, 4, 0, 0, 0, 0, 0, 0, 0, 0, 0, 0, 0, 0x42, 0, 0, 0, 0, 0, 0, 0, 50, 0, 0, 0, 0,
      0, 0, 0, 4, 0, 0, 0, 0, 0, 0, 0, 0xde, 0xad, 0xbe, 0xef]], .ok ()⟩ := rfl

/-- The framing of a whole call, whatever the notifier knows of the resolver. -/
theorem framing_exact_iff (build : Build) (cf : CaseFold) (now : Instant)
    (resolver : Option PathResolver) (call : Notify) :
    (∃ delivery, (call.run build cf now resolver).1 = some delivery ∧ call.Exact delivery) ↔
      call.payloadLength < 2 ^ 32 - 16 ∨ 2 ^ 32 ≤ call.payloadLength :=
  call.deliver_exact_iff build

/-- The total length of a message with `2 ^ 32 - 40` bytes of data wraps to zero. -/
theorem framing_wraps :
    ¬ ∀ (build : Build) (cf : CaseFold) (now : Instant) (resolver : Option PathResolver)
      (call : Notify), ∃ delivery, (call.run build cf now resolver).1 = some delivery ∧
        call.Exact delivery := by
  intro hall
  obtain ⟨data, hdata⟩ : ∃ data : List UInt8, data.length = 2 ^ 32 - 40 :=
    ⟨List.replicate (2 ^ 32 - 40) 0, List.length_replicate⟩
  have hframed := hall .release CharFold.ascii.toCaseFold 0 none (.store ⟨1⟩ 0 data)
  have hrange := (deliver_exact_iff .release (.store ⟨1⟩ 0 data)).mp hframed
  rw [payloadLength, hdata] at hrange
  omega

end Notify
end Confuse
