import DlmsCosem.Security.Wrap

/-!
# The sender of a push

A push is not part of an association: it is a DataNotification that goes out when the meter has something
to report. It has no ciphered tag of its own, so a protected one travels under general ciphering, which
names the meter, and under the global key.
-/

namespace Dlms

/-- Builds notifications. A plain one is built in a scratch of `N` bytes. -/
structure PushSender (π : Type) (N : Nat) where
  protector : Protector π
  systemTitle : SystemTitle
  invocationCounter : InvocationCounter
  longInvokeId : UInt32

namespace PushSender

variable {π : Type} {N : Nat}

/-- `new`. `counter` is the last number that was sent under. -/
def new (N : Nat) (provider : π) (systemTitle : SystemTitle) (policy : SecurityPolicy) (counter : UInt32) :
    PushSender π N :=
  ⟨⟨provider, policy.global⟩, systemTitle, ⟨counter⟩, 0⟩

/-- The long invoke id counts the pushes. -/
def nextLongInvokeId : Prog Error (PushSender π N) LongInvokeId := fun s =>
  let id := (s.longInvokeId + 1) &&& 0x00FFFFFF
  (.ok (.new id), { s with longInvokeId := id })

/-- Take the next number. -/
def nextCounter : Prog Error (PushSender π N) UInt32 := do
  let next ← Prog.ofExcept (← Prog.gets invocationCounter).next
  Prog.modify fun s => { s with invocationCounter := next.2 }
  return next.1

/-- Build one notification, into `room` bytes. -/
def notify (C : CryptoProvider π) (capturedAt : Option DateTime) (body : Data) (room : Nat) :
    Prog Error (PushSender π N) Bytes := do
  let longInvokeId ← nextLongInvokeId
  let notification : DataNotification := ⟨longInvokeId, ⟨capturedAt⟩, body⟩
  let plain ← Prog.ofExcept (SliceWriter.encodeInto (Apdu.dataNotification notification).encode (zeros N))
  let p ← Prog.gets protector
  if p.policy.isNone then
    Prog.ofExcept (SliceWriter.encodeInto (Emit.bytes plain) (zeros room))
  else do
    let systemTitle ← Prog.gets systemTitle
    let invocationCounter ← nextCounter
    Prog.ofExcept (protectApdu C p
      { systemTitle, invocationCounter, authKey := C.authenticationKey p.provider, policy := p.policy
        generalAllowed := true } plain room)

/-- `check_body_fits`: the tag, the long invoke id and the time at their longest, and the wrapper. -/
def checkBodyFits (body : Data) (maxPduSize : UInt16) : Result Unit :=
  let overhead := 1 + 4 + 13 + (1 + 9 + 5 + 1 + 4 + 12)
  let needed := body.encode.size + overhead
  if needed > maxPduSize.toNat then
    Error.fail (.bufferTooSmall (needed - maxPduSize.toNat)) 0
  else
    .ok ()

/-! ## What a sender sends -/

/-- The notification that comes next. -/
def notification (s : PushSender π N) (capturedAt : Option DateTime) (body : Data) : DataNotification :=
  ⟨.new ((s.longInvokeId + 1) &&& 0x00FFFFFF), ⟨capturedAt⟩, body⟩

/-- Its plain form. -/
def plain (s : PushSender π N) (capturedAt : Option DateTime) (body : Data) : Emit :=
  (Apdu.dataNotification (s.notification capturedAt body)).encode

/-- What it is protected under. -/
def outgoing (C : CryptoProvider π) (s : PushSender π N) (value : UInt32) : Outgoing :=
  ⟨s.systemTitle, value, C.authenticationKey s.protector.provider, s.protector.policy, true⟩

/-- A notification that was built: its plain form, or that under the next number. -/
inductive Notified (C : CryptoProvider π) (s : PushSender π N) (plain : Bytes) (room : Nat) :
    Bytes → PushSender π N → Prop
  | bare {id : UInt32} : s.protector.policy.isNone = true → plain.length ≤ room →
    Notified C s plain room plain { s with longInvokeId := id }
  | covered {id value : UInt32} {frame : Bytes} : s.protector.policy.isNone = false →
    value.toNat = s.invocationCounter.last.toNat + 1 →
    protectApdu C s.protector (s.outgoing C value) plain room = .ok frame →
    Notified C s plain room frame { s with longInvokeId := id, invocationCounter := ⟨value⟩ }

variable {C : CryptoProvider π} {s t : PushSender π N} {capturedAt : Option DateTime} {body : Data}
  {room : Nat} {frame : Bytes}

theorem notify_ok (h : notify C capturedAt body room s = (.ok frame, t)) :
    (s.plain capturedAt body).fault = none ∧ (s.plain capturedAt body).data.length ≤ N ∧
      Notified C s (s.plain capturedAt body).data room frame t := by
  obtain ⟨longInvokeId, s₁, hnext, h⟩ := Prog.bind_ok h
  obtain ⟨hid, rfl⟩ := Prod.mk.inj hnext
  obtain rfl := Except.ok.inj hid
  obtain ⟨plain, hplain, h⟩ := Prog.ofExcept_bind_ok h
  obtain ⟨hf, rfl, hroom⟩ := SliceWriter.encodeInto_ok hplain
  rw [length_zeros] at hroom
  refine ⟨hf, hroom, ?_⟩
  rw [Prog.gets_bind_run] at h
  by_cases hnone : s.protector.policy.isNone = true
  · rw [if_pos hnone, Prog.ofExcept_run] at h
    obtain ⟨hframe, rfl⟩ := Prod.mk.inj h
    obtain ⟨-, rfl, hfit⟩ := SliceWriter.encodeInto_ok hframe
    rw [Emit.size, Emit.bytes_data, length_zeros] at hfit
    rw [Emit.bytes_data]
    exact .bare hnone hfit
  · rw [if_neg hnone, Prog.gets_bind_run] at h
    obtain ⟨value, s₂, hcounter, h⟩ := Prog.bind_ok h
    unfold nextCounter at hcounter
    rw [Prog.gets_bind_run] at hcounter
    obtain ⟨⟨value', next⟩, hvalue, hcounter⟩ := Prog.ofExcept_bind_ok hcounter
    obtain ⟨hsame, rfl⟩ := Prod.mk.inj hcounter
    obtain rfl := Except.ok.inj hsame
    obtain ⟨rfl, hlt⟩ := InvocationCounter.next_ok hvalue
    rw [Prog.ofExcept_run] at h
    obtain ⟨hframe, rfl⟩ := Prod.mk.inj h
    exact .covered (by simpa using hnone) hlt hframe

end PushSender

end Dlms
