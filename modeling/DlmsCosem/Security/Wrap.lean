import DlmsCosem.Security.Protect

/-!
# Putting protection on an APDU and taking it off

Both ends wrap and unwrap APDUs here. A service with a ciphered tag of its own goes out under that
tag; the others need a general wrapper, which the peer has to have agreed to. On the way in the
window is asked before the cryptography and moved after it (`unprotectApdu`).

What was opened is kept beside the plain APDU as a `Frame`: the program itself forgets it.
-/

namespace Dlms

/-! ## Going out -/

/-- What is known about a message going out. -/
structure Outgoing where
  systemTitle : SystemTitle
  invocationCounter : UInt32
  authKey : Option Bytes
  policy : SecurityPolicy
  generalAllowed : Bool

/-- The longest header of a protected APDU. -/
def headerMax : Nat := 1 + (1 + 8) + 5 + 1 + 4

/-- `[0u8; n]`. -/
def zeros (n : Nat) : Bytes := List.replicate n 0

@[simp] theorem length_zeros (n : Nat) : (zeros n).length = n := List.length_replicate ..

namespace Outgoing

/-- The protection that the policy's key set stands for. -/
def protection (ctx : Outgoing) : Protection :=
  if ctx.policy.dedicated then .dedicated else .global

/-- How long the protected payload of `plain` is. -/
def payloadLen (ctx : Outgoing) (plain : Bytes) : Nat :=
  plain.length + if ctx.policy.authenticated then SecuritySuite.tagLen else 0

/-- What stands before the length: the ciphered tag, or a general wrapper and who sent it. -/
def start (ctx : Outgoing) (tag : ApduTag) : Result Emit :=
  match tag.protectedAs ctx.protection with
  | some tag => .ok (Emit.u8 tag.asU8)
  | none =>
    if !ctx.generalAllowed then Error.fail .unsupported 0
    else
      let tag := match ctx.protection with
        | .dedicated => ApduTag.generalDedCiphering
        | _ => ApduTag.generalGloCiphering
      .ok (Emit.u8 tag.asU8 ++ Emit.lengthPrefixed ctx.systemTitle.bytes)

/-- The header of a protected APDU. -/
def header (ctx : Outgoing) (tag : ApduTag) (payloadLen : Nat) : Result Bytes := do
  let start ← ctx.start tag
  SliceWriter.encodeInto (start ++ (Emit.length (5 + payloadLen) ++ Emit.u8 ctx.policy.control.val ++
    Emit.u32 ctx.invocationCounter)) (zeros headerMax)

end Outgoing

section Protect

variable {π : Type} (C : CryptoProvider π)

/-- `protect_apdu`: the protected form of a whole plain APDU, in `room` bytes. -/
def protectApdu (p : Protector π) (ctx : Outgoing) (plain : Bytes) (room : Nat) : Result Bytes :=
  if ctx.policy.isNone then
    SliceWriter.encodeInto (Emit.bytes plain) (zeros room)
  else
    match plain.head?.bind ApduTag.fromU8 with
    | none => Error.fail (.invalidTag (plain.headD 0)) 0
    | some tag =>
      match ctx.authKey with
      | none => Error.fail .unsupported 0
      | some authKey => do
        let header ← ctx.header tag (ctx.payloadLen plain)
        if room < header.length then Error.fail (.bufferTooSmall header.length) 0
        else
          let payload ← p.protectAs C ctx.policy ctx.systemTitle ctx.invocationCounter authKey plain
            (room - header.length)
          if payload.length ≠ ctx.payloadLen plain then Error.fail .invalidLength header.length
          else return header ++ payload

end Protect

/-! ## Coming in -/

/-- What is known about a message coming in. -/
structure Incoming where
  localTitle : Option SystemTitle
  peer : Option SystemTitle
  authKey : Option Bytes
  policy : SecurityPolicy
  plainAllowed : List ApduTag

/-- A protected message that was opened: under which policy, who it is from, its number and what
its control byte said. -/
structure Frame where
  policy : SecurityPolicy
  control : SecurityControl
  title : SystemTitle
  counter : UInt32
  deriving DecidableEq

/-- A plain APDU and, when it came protected, the frame it came in. -/
structure Opened where
  plain : Bytes
  frame : Option Frame
  deriving DecidableEq

/-- What `unprotect_apdu` works on: the window and the buffer of the plain APDU. -/
structure OpenState where
  replay : ReplayWindow
  buf : Bytes

/-- What the wrapper of a protected APDU says: the tag the plain APDU must have, where one is
known, and the ciphered body. -/
structure Wrapped where
  expectTag : Option ApduTag
  ciphered : CipheredService

namespace Incoming

variable (ctx : Incoming)

/-- Refuse a title that is not the peer's, where the peer is known. -/
def checkPeer (title : Bytes) : Result Unit :=
  match ctx.peer with
  | some peer => if title ≠ peer.bytes then Error.fail .unexpectedMessage 0 else .ok ()
  | none => .ok ()

/-- Refuse a frame for another recipient. An empty name is nobody in particular. -/
def checkRecipient (title : Bytes) : Result Unit :=
  match ctx.localTitle with
  | some own =>
    if title ≠ [] ∧ title ≠ own.bytes then Error.fail .unexpectedMessage 0 else .ok ()
  | none => .ok ()

/-- Refuse key information that does not name the key set in force. -/
def checkKeyInfo : Option KeyInfo → Result Unit
  | none => .ok ()
  | some (.identified keyId) =>
    if some keyId = ctx.policy.keyUsage.keyId then .ok () else Error.fail .unexpectedMessage 0
  | some (.wrapped _ _) | some (.agreed _ _) => Error.fail .unsupported 0

/-- Refuse a frame under the other key set. -/
def checkDedicated (dedicated : Bool) : Result Unit :=
  if dedicated ≠ ctx.policy.dedicated then Error.fail .unexpectedMessage 0 else .ok ()

/-- Read the wrapper that `tag` names. `none` is an APDU without protection. -/
def readWrapper (tag : ApduTag) : Read (Option Wrapped) := do
  Read.skip 1
  match tag with
  | .generalGloCiphering | .generalDedCiphering => do
    let g ← GeneralGloCiphering.decode
    Prog.ofExcept (ctx.checkPeer g.systemTitle)
    Prog.ofExcept (ctx.checkDedicated (tag = .generalDedCiphering))
    return some ⟨none, g.ciphered⟩
  | .generalCiphering => do
    let g ← GeneralCiphering.decode
    Prog.ofExcept (ctx.checkPeer g.originatorSystemTitle)
    Prog.ofExcept (ctx.checkRecipient g.recipientSystemTitle)
    Prog.ofExcept (ctx.checkKeyInfo g.keyInfo)
    Prog.ofExcept (ctx.checkDedicated false)
    return some ⟨none, g.ciphered⟩
  | .generalSigning => Prog.throw ⟨.unsupported, 0⟩
  | _ =>
    match tag.unprotect with
    | none => do
      if !ctx.policy.isNone && !ctx.plainAllowed.contains tag then
        Prog.throw ⟨.unexpectedMessage, 0⟩
      else
        return none
    | some (protection, plainTag) => do
      Prog.ofExcept (ctx.checkDedicated (protection = .dedicated))
      return some ⟨some plainTag, ← CipheredService.decode⟩

end Incoming

/-- Copy `bytes` to the front of the buffer. -/
def copyIn (bytes : Bytes) : Prog Error OpenState Unit := fun s =>
  if s.buf.length < bytes.length then (.error ⟨.bufferTooSmall bytes.length, 0⟩, s)
  else (.ok (), { s with buf := bytes ++ s.buf.drop bytes.length })

/-- Run the protector on the first `n` bytes of the buffer. -/
def openIn {α : Type} (n : Nat) (m : Prog Error Bytes α) : Prog Error OpenState α := fun s =>
  let (r, front) := m (s.buf.take n)
  (r, { s with buf := front ++ s.buf.drop n })

/-- Take a counter. -/
def acceptCounter (counter : UInt32) : Prog Error OpenState Unit := fun s =>
  match s.replay.accept counter with
  | .ok w => (.ok (), { s with replay := w })
  | .error e => (.error e, s)

section Unprotect

variable {π : Type} (C : CryptoProvider π)

/-- Open the body of a protected APDU. -/
def openWrapped (p : Protector π) (ctx : Incoming) (w : Wrapped) : Prog Error OpenState Opened := do
  match ctx.peer with
  | none => Prog.throw ⟨.unexpectedMessage, 0⟩
  | some peer => do
    let counter := w.ciphered.invocationCounter
    let replay ← Prog.gets OpenState.replay
    Prog.ofExcept (replay.check counter)
    copyIn w.ciphered.payload
    match ctx.authKey with
    | none => Prog.throw ⟨.unsupported, 0⟩
    | some authKey => do
      let plain ← openIn w.ciphered.payload.length
        (p.unprotectAs C ctx.policy w.ciphered.securityControl peer counter authKey)
      acceptCounter counter
      let buf ← Prog.gets OpenState.buf
      if (w.expectTag.any fun t => buf.head? ≠ some t.asU8) then
        Prog.throw ⟨.unexpectedMessage, 0⟩
      else
        return ⟨buf.take plain.length, some ⟨ctx.policy, w.ciphered.securityControl, peer, counter⟩⟩

/-- `unprotect_apdu`. -/
def unprotectApdu (p : Protector π) (ctx : Incoming) (apdu : Bytes) : Prog Error OpenState Opened :=
  match ApduTag.fromU8 (apdu.headD 0) with
  | none => Prog.throw ⟨.invalidTag (apdu.headD 0), 0⟩
  | some tag => do
    match ← Prog.ofExcept (ctx.readWrapper tag (Reader.new apdu)).1 with
    | none => do
      copyIn apdu
      return ⟨apdu, none⟩
    | some w => openWrapped C p ctx w

end Unprotect

/-! ## What comes of an APDU -/

/-- What may come of an APDU whose protection is taken off: a refusal, a plain APDU of a kind that
may come plain, or a frame of the peer that was fresh, and is taken. A frame that was taken may
still be refused for the tag in it. -/
inductive Unprotected (ctx : Incoming) (apdu : Bytes) (s : OpenState) :
    Except Error Opened × OpenState → Prop
  | refused (e : Error) (t : OpenState) : t.replay = s.replay → Unprotected ctx apdu s (.error e, t)
  | plain (tag : ApduTag) (t : OpenState) : ApduTag.fromU8 (apdu.headD 0) = some tag →
    (ctx.policy.isNone = true ∨ tag ∈ ctx.plainAllowed) → t.replay = s.replay →
    Unprotected ctx apdu s (.ok ⟨apdu, none⟩, t)
  | taken (f : Frame) (r : Except Error Opened) (t : OpenState) : ctx.peer = some f.title →
    f.policy = ctx.policy → ctx.policy.checkReceived f.control = .ok () →
    s.replay.check f.counter = .ok () → t.replay = s.replay.record f.counter →
    (∀ opened, r = .ok opened → opened.frame = some f) → Unprotected ctx apdu s (r, t)

section Unprotect

variable {π : Type} (C : CryptoProvider π)

/-- Only an APDU of a kind that may come plain has no wrapper. -/
theorem Incoming.readWrapper_none {ctx : Incoming} {tag : ApduTag} {r r' : Reader}
    (h : ctx.readWrapper tag r = (.ok none, r')) :
    ctx.policy.isNone = true ∨ tag ∈ ctx.plainAllowed := by
  obtain ⟨_, r₁, -, h⟩ := Prog.bind_ok h
  have wrapped {α : Type} {m : Read α} {f : α → Wrapped} {r : Reader}
      (h : (m >>= fun a => pure (some (f a))) r = (.ok none, r')) : False := by
    obtain ⟨a, r₂, -, h⟩ := Prog.bind_ok h
    cases h
  split at h
  · obtain ⟨g, _, -, h⟩ := Prog.bind_ok h
    obtain ⟨_, _, -, h⟩ := Prog.bind_ok h
    obtain ⟨_, _, -, h⟩ := Prog.bind_ok h
    cases h
  · obtain ⟨g, _, -, h⟩ := Prog.bind_ok h
    obtain ⟨_, _, -, h⟩ := Prog.bind_ok h
    obtain ⟨_, _, -, h⟩ := Prog.bind_ok h
    cases h
  · obtain ⟨g, _, -, h⟩ := Prog.bind_ok h
    obtain ⟨_, _, -, h⟩ := Prog.bind_ok h
    obtain ⟨_, _, -, h⟩ := Prog.bind_ok h
    obtain ⟨_, _, -, h⟩ := Prog.bind_ok h
    obtain ⟨_, _, -, h⟩ := Prog.bind_ok h
    cases h
  · cases h
  · generalize tag.unprotect = u at h
    cases u with
    | none =>
      dsimp only at h
      split at h
      · cases h
      · rename_i hp
        simpa [or_iff_not_imp_left] using hp
    | some u =>
      obtain ⟨_, _, -, h⟩ := Prog.bind_ok h
      exact (wrapped h).elim

theorem copyIn_replay (bytes : Bytes) (s : OpenState) : (copyIn bytes s).2.replay = s.replay := by
  unfold copyIn
  split <;> rfl

theorem openIn_replay {α : Type} (n : Nat) (m : Prog Error Bytes α) (s : OpenState) :
    (openIn n m s).2.replay = s.replay := rfl

theorem openWrapped_unprotected (p : Protector π) (ctx : Incoming) (w : Wrapped) (apdu : Bytes)
    (s : OpenState) : Unprotected ctx apdu s (openWrapped C p ctx w s) := by
  unfold openWrapped
  cases hp : ctx.peer with
  | none => exact .refused _ _ rfl
  | some peer =>
    simp only [Prog.gets_bind_run]
    cases hc : s.replay.check w.ciphered.invocationCounter with
    | error e => exact .refused _ _ rfl
    | ok _ =>
      simp only [Prog.ofExcept_ok, Prog.pure_bind_run]
      have hcopy := copyIn_replay w.ciphered.payload s
      match hcp : copyIn w.ciphered.payload s with
      | (.error e, s₁) =>
        rw [Prog.bind_run_error hcp]
        exact .refused _ _ (by rw [hcp] at hcopy; exact hcopy)
      | (.ok _, s₁) =>
        rw [Prog.bind_run_ok hcp]
        rw [hcp] at hcopy
        cases ctx.authKey with
        | none => exact .refused _ _ hcopy
        | some key =>
          dsimp only
          have hopen := openIn_replay w.ciphered.payload.length (p.unprotectAs C ctx.policy
              w.ciphered.securityControl peer w.ciphered.invocationCounter key) s₁
          match hop : openIn w.ciphered.payload.length (p.unprotectAs C ctx.policy
              w.ciphered.securityControl peer w.ciphered.invocationCounter key) s₁ with
          | (.error e, s₂) =>
            rw [Prog.bind_run_error hop]
            exact .refused _ _ (by rw [hop] at hopen; exact hopen.trans hcopy)
          | (.ok plain, s₂) =>
            rw [Prog.bind_run_ok hop]
            have hs₂ : s₂.replay = s.replay := by rw [hop] at hopen; exact hopen.trans hcopy
            have hrec := p.unprotectAs_received C (congrArg Prod.fst hop :)
            have hacc : acceptCounter w.ciphered.invocationCounter s₂ =
                (.ok (), { s₂ with replay := s.replay.record w.ciphered.invocationCounter }) := by
              rw [acceptCounter, hs₂, ReplayWindow.accept, hc]
              rfl
            rw [Prog.bind_run_ok hacc]
            simp only [Prog.gets_bind_run]
            generalize (w.expectTag.any _) = unexpected
            refine .taken ⟨ctx.policy, w.ciphered.securityControl, peer,
              w.ciphered.invocationCounter⟩ _ _ hp rfl hrec hc ?_ ?_
            · cases unexpected <;> rfl
            · rintro opened ho
              cases unexpected
              · rw [← Except.ok.inj ho]
              · cases ho

/-- What `unprotect_apdu` may do. -/
theorem unprotectApdu_unprotected (p : Protector π) (ctx : Incoming) (apdu : Bytes)
    (s : OpenState) : Unprotected ctx apdu s (unprotectApdu C p ctx apdu s) := by
  unfold unprotectApdu
  cases htag : ApduTag.fromU8 (apdu.headD 0) with
  | none => exact .refused _ _ rfl
  | some tag =>
    dsimp only
    match hw : ctx.readWrapper tag (Reader.new apdu) with
    | (.error e, _) => exact .refused _ _ rfl
    | (.ok (some w), _) => exact openWrapped_unprotected C p ctx w apdu s
    | (.ok none, _) =>
      have hcopy := copyIn_replay apdu s
      simp only [Prog.ofExcept_ok, Prog.pure_bind_run]
      match hcp : copyIn apdu s with
      | (.error e, s₁) =>
        rw [Prog.bind_run_error hcp]
        exact .refused _ _ (by rw [hcp] at hcopy; exact hcopy)
      | (.ok _, s₁) =>
        rw [Prog.bind_run_ok hcp]
        rw [hcp] at hcopy
        exact .plain tag _ htag (Incoming.readWrapper_none hw) hcopy

end Unprotect

end Dlms
