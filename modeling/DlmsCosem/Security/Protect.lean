import DlmsCosem.Security.Counter
import DlmsCosem.Xdlms.Apdu

/-!
# Keys, policies and the protector

The cryptography itself is not part of this program: a `CryptoProvider` is any code that seals,
opens and computes message authentication codes under keys it holds. What the program adds is here:
which key, nonce and additional data each protected message is made with (`protectAs`), what a
receiver demands of the security control byte (`checkReceived`), and the proofs of a GMAC handshake
(`hlsGmacResponse`, `verifyHlsGmac`).
-/

namespace Dlms

/-! ## Keys -/

/-- A system title: eight bytes that name a device. -/
structure SystemTitle where
  bytes : Bytes
  length_eq : bytes.length = 8
  deriving DecidableEq

/-- `from_slice`. -/
def SystemTitle.fromSlice (b : Bytes) : Result SystemTitle :=
  if h : b.length = 8 then .ok ⟨b, h⟩ else Error.fail .invalidLength 0

theorem SystemTitle.fromSlice_error {b : Bytes} {e : Error} (h : fromSlice b = .error e) :
    b.length ≠ 8 := by
  unfold fromSlice at h
  split at h
  · cases h
  · assumption

theorem SystemTitle.fromSlice_ok {b : Bytes} {title : SystemTitle} (h : fromSlice b = .ok title) :
    title.bytes = b := by
  unfold fromSlice at h
  split at h
  · rw [← Except.ok.inj h]
  · cases h

/-- What a key is used for. -/
inductive KeyUsage
  | globalUnicastEncryption
  | globalBroadcastEncryption
  | authentication
  | keyEncrypting
  | dedicated
  deriving Repr, DecidableEq

/-- The number a key is identified by on the wire. -/
def KeyUsage.keyId : KeyUsage → Option UInt8
  | globalUnicastEncryption => some 0
  | globalBroadcastEncryption => some 1
  | authentication | keyEncrypting | dedicated => none

/-- A key: sixteen or thirty-two bytes. -/
structure Key where
  bytes : Bytes
  length_eq : bytes.length = 16 ∨ bytes.length = 32
  deriving DecidableEq

/-- The longest key. -/
def Key.maxLen : Nat := 32

/-- `from_slice`. -/
def Key.fromSlice (b : Bytes) : Result Key :=
  if h : b.length = 16 ∨ b.length = 32 then .ok ⟨b, h⟩ else Error.fail .invalidLength 0

theorem Key.fromSlice_error {b : Bytes} {e : Error} (h : fromSlice b = .error e) :
    b.length ≠ 16 ∧ b.length ≠ 32 := by
  unfold fromSlice at h
  split at h
  · cases h
  · rename_i hlen
    exact not_or.mp hlen

/-- A password of at most sixty-four bytes. -/
structure Secret where
  bytes : Bytes
  length_le : bytes.length ≤ 64
  deriving DecidableEq

/-- The nonce of a message: the sender's title and the counter. -/
def nonce (title : SystemTitle) (counter : UInt32) : Bytes := title.bytes ++ beBytes 4 counter.toNat

/-- A security suite. -/
inductive SecuritySuite
  | suite0
  | suite1
  | suite2
  deriving Repr, DecidableEq

namespace SecuritySuite

def id : SecuritySuite → UInt8
  | suite0 => 0
  | suite1 => 1
  | suite2 => 2

def fromId : UInt8 → Result SecuritySuite
  | 0 => .ok suite0
  | 1 => .ok suite1
  | 2 => .ok suite2
  | _ => Error.fail .unsupported 0

/-- The length of an authentication tag. -/
def tagLen : Nat := 12

@[simp] theorem fromId_id (s : SecuritySuite) : fromId s.id = .ok s := by
  cases s <;> rfl

end SecuritySuite

/-- The cryptography: `π` is what holds the keys. `aeadSeal` and `aeadOpen` work in place, so they
give the buffer after the call, also when they fail. -/
structure CryptoProvider (π : Type) where
  aeadSeal : π → KeyUsage → SecuritySuite → (nonce aad buf : Bytes) → Result Bytes × Bytes
  aeadOpen : π → KeyUsage → SecuritySuite → (nonce aad buf tag : Bytes) → Result Unit × Bytes
  gmac : π → KeyUsage → SecuritySuite → (nonce : Bytes) → (aad : List Bytes) → Result Bytes
  authenticationKey : π → Option Bytes
  dedicatedKey : π → Option Bytes
  setDedicatedKey : π → Key → Result Unit × π
  clearDedicatedKey : π → π
  aeadSeal_buf : ∀ p k s n a b, (aeadSeal p k s n a b).2.length = b.length
  aeadSeal_tag : ∀ p k s n a b t, (aeadSeal p k s n a b).1 = .ok t → t.length = SecuritySuite.tagLen
  aeadOpen_buf : ∀ p k s n a b t, (aeadOpen p k s n a b t).2.length = b.length
  gmac_tag : ∀ p k s n a t, gmac p k s n a = .ok t → t.length = SecuritySuite.tagLen

/-! ## Policies -/

/-- The keys an association protects its messages with. -/
inductive KeySet
  | globalUnicast
  | globalBroadcast
  | dedicated
  deriving Repr, DecidableEq

namespace KeySet

def usage : KeySet → KeyUsage
  | globalUnicast => .globalUnicastEncryption
  | globalBroadcast => .globalBroadcastEncryption
  | dedicated => .dedicated

def isBroadcast : KeySet → Bool
  | globalBroadcast => true
  | _ => false

def isDedicated : KeySet → Bool
  | dedicated => true
  | _ => false

end KeySet

/-- How the messages of an association are protected. -/
structure SecurityPolicy where
  suite : SecuritySuite := .suite0
  authenticated : Bool := false
  encrypted : Bool := false
  keySet : KeySet := .globalUnicast
  deriving Repr, DecidableEq

namespace SecurityPolicy

/-- No protection. -/
def none : SecurityPolicy := {}

/-- The same protection under the global unicast key. -/
def global (p : SecurityPolicy) : SecurityPolicy := { p with keySet := .globalUnicast }

/-- The same protection, under the dedicated key or not. -/
def withDedicated (p : SecurityPolicy) (dedicated : Bool) : SecurityPolicy :=
  { p with keySet := if dedicated then .dedicated else .globalUnicast }

def dedicated (p : SecurityPolicy) : Bool := p.keySet.isDedicated

def keyUsage (p : SecurityPolicy) : KeyUsage := p.keySet.usage

/-- The security control byte of a message under this policy. -/
def control (p : SecurityPolicy) : SecurityControl :=
  (SecurityControl.new p.suite.id p.authenticated p.encrypted).withBroadcast p.keySet.isBroadcast

/-- True when nothing is protected. -/
def isNone (p : SecurityPolicy) : Bool := !p.authenticated && !p.encrypted

/-- Refuse a message whose control byte says less than the policy demands. -/
def checkReceived (p : SecurityPolicy) (control : SecurityControl) : Result Unit :=
  if control.compressed then Error.fail .unsupported 0
  else if control.broadcastKey != p.keySet.isBroadcast then Error.fail .unexpectedMessage 0
  else if p.isNone then .ok ()
  else if control.suite != p.suite.id || (p.authenticated && !control.authenticated)
      || (p.encrypted && !control.encrypted) then Error.fail .unexpectedMessage 0
  else .ok ()

@[simp] theorem isNone_withDedicated (p : SecurityPolicy) (d : Bool) :
    (p.withDedicated d).isNone = p.isNone := rfl

@[simp] theorem isNone_global (p : SecurityPolicy) : p.global.isNone = p.isNone := rfl

/-- What a receiver has seen to of the control byte of a message it goes on to open. -/
theorem checkReceived_ok {p : SecurityPolicy} {c : SecurityControl} (h : p.checkReceived c = .ok ())
    (hp : p.isNone = false) :
    c.compressed = false ∧ c.broadcastKey = p.keySet.isBroadcast ∧ c.suite = p.suite.id ∧
      (p.authenticated = true → c.authenticated = true) ∧
      (p.encrypted = true → c.encrypted = true) := by
  unfold checkReceived at h
  split at h
  · cases h
  · split at h
    · cases h
    · rw [hp] at h
      simp only [Bool.false_eq_true, if_false] at h
      split at h
      · cases h
      · rename_i h1 h2 h3
        simp only [Bool.or_eq_true, bne_iff_ne, Bool.and_eq_true, Bool.not_eq_true', not_or,
          Decidable.not_not, not_and, Bool.not_eq_false] at h2 h3
        exact ⟨by simpa using h1, h2, h3.1.1, h3.1.2, h3.2⟩

end SecurityPolicy

/-! ## The protector -/

/-- The keys and the policy of one association. -/
structure Protector (π : Type) where
  provider : π
  policy : SecurityPolicy

namespace Protector

variable {π : Type} (C : CryptoProvider π) (p : Protector π)

/-- Switch to the dedicated key set or back to the global one. -/
def setDedicated (p : Protector π) (dedicated : Bool) : Protector π :=
  { p with policy := p.policy.withDedicated dedicated }

/-- The additional data of an authenticated message: the control byte and the authentication key. -/
def buildAad (control : SecurityControl) (authKey : Bytes) : Result Bytes :=
  if 1 + authKey.length > 1 + Key.maxLen then Error.fail .unsupported 0
  else .ok (control.val :: authKey)

/-- Equality of two tags, without an early end. -/
def constantTimeEq (a b : Bytes) : Bool :=
  if a.length ≠ b.length then false
  else (List.zipWith (· ^^^ ·) a b).foldl (· ||| ·) 0 == 0

/-- `gmac_with`: the code over the control byte, the authentication key and `data`. -/
def gmacWith (policy : SecurityPolicy) (control : SecurityControl) (authKey iv data : Bytes) :
    Result Bytes := do
  let suite ← SecuritySuite.fromId control.suite
  C.gmac p.provider policy.keyUsage suite iv [[control.val], authKey, data]

/-- `protect_as`: the protected payload of `plaintext`, into `room` bytes. -/
def protectAs (policy : SecurityPolicy) (title : SystemTitle) (counter : UInt32) (authKey : Bytes)
    (plaintext : Bytes) (room : Nat) : Result Bytes :=
  let control := policy.control
  let iv := nonce title counter
  if policy.isNone then
    if plaintext.length ≤ room then .ok plaintext
    else Error.fail (.bufferTooSmall plaintext.length) 0
  else
    let needed := plaintext.length + if policy.authenticated then SecuritySuite.tagLen else 0
    if room < needed then Error.fail (.bufferTooSmall (needed - room)) 0
    else if policy.authenticated && policy.encrypted then do
      let aad ← buildAad control authKey
      let (tag, body) := C.aeadSeal p.provider policy.keyUsage policy.suite iv aad plaintext
      return body ++ (← tag)
    else if policy.authenticated then do
      let tag ← p.gmacWith C policy control authKey iv plaintext
      return plaintext ++ tag
    else do
      let (tag, body) := C.aeadSeal p.provider policy.keyUsage policy.suite iv [] plaintext
      let _ ← tag
      return body

/-- A run of the provider on the front of the buffer. -/
def inPlace {α : Type} (n : Nat) (f : Bytes → Result α × Bytes) : Prog Error Bytes α := fun buf =>
  ((f (buf.take n)).1, (f (buf.take n)).2 ++ buf.drop n)

/-- `unprotect_as`: take the protection off the payload, which is the state. -/
def unprotectAs (policy : SecurityPolicy) (control : SecurityControl) (title : SystemTitle)
    (counter : UInt32) (authKey : Bytes) : Prog Error Bytes Bytes := do
  Prog.ofExcept (policy.checkReceived control)
  let iv := nonce title counter
  let suite ← Prog.ofExcept (SecuritySuite.fromId control.suite)
  let payload ← Prog.gets id
  if control.isPlain then
    return payload
  else if !control.authenticated then
    -- Counter mode: sealing the ciphertext recovers the plaintext, and the tag is dropped.
    let _ ← inPlace payload.length (C.aeadSeal p.provider policy.keyUsage suite iv [])
    Prog.gets id
  else if payload.length < SecuritySuite.tagLen then
    Prog.throw ⟨.invalidLength, 0⟩
  else
    let len := payload.length - SecuritySuite.tagLen
    let tag := payload.drop len
    if control.encrypted then
      let aad ← Prog.ofExcept (buildAad control authKey)
      inPlace len fun body => C.aeadOpen p.provider policy.keyUsage suite iv aad body tag
    else
      let expected ← Prog.ofExcept (p.gmacWith C policy control authKey iv (payload.take len))
      if constantTimeEq expected tag then
        pure ()
      else
        Prog.throw ⟨.badTag, 0⟩
    Prog.gets (List.take len)

/-- `hls_gmac_response`: the proof of knowing the keys, over the peer's challenge. -/
def hlsGmacResponse (title : SystemTitle) (counter : UInt32) (authKey challenge : Bytes) :
    Result Bytes := do
  let control := SecurityControl.new p.policy.suite.id true false
  let tag ← p.gmacWith C p.policy.global control authKey (nonce title counter) challenge
  return control.val :: beBytes 4 counter.toNat ++ tag

/-- `verify_hls_gmac`: check the peer's proof over the challenge that was sent to it. -/
def verifyHlsGmac (peer : SystemTitle) (authKey challenge response : Bytes) : Result Unit :=
  if response.length ≠ 17 then Error.fail .invalidLength 0
  else
    let control : SecurityControl := ⟨response.getD 0 0⟩
    if !control.authenticated || control.encrypted || control.broadcastKey || control.compressed
        || control.suite != p.policy.suite.id then Error.fail .unexpectedMessage 0
    else do
      let counter := UInt32.ofNat (beNat ((response.drop 1).take 4))
      let expected ← p.gmacWith C p.policy.global control authKey (nonce peer counter) challenge
      if constantTimeEq expected (response.drop 5) then .ok () else Error.fail .badTag 0

/-- Protection adds a tag at most. -/
theorem protectAs_length {policy : SecurityPolicy} {title : SystemTitle} {counter : UInt32}
    {authKey plaintext out : Bytes} {room : Nat}
    (h : p.protectAs C policy title counter authKey plaintext room = .ok out) :
    out.length ≤ plaintext.length + SecuritySuite.tagLen := by
  unfold protectAs at h
  dsimp only at h
  split at h
  · split at h
    · rw [← Except.ok.inj h]
      exact Nat.le_add_right ..
    · cases h
  · generalize plaintext.length + (if policy.authenticated then SecuritySuite.tagLen else 0) = needed
      at h
    split at h
    · cases h
    · split at h
      · obtain ⟨aad, -, h⟩ := Result.bind_ok.mp h
        obtain ⟨tag, htag, h⟩ := Result.bind_ok.mp h
        rw [← Except.ok.inj h, List.length_append, C.aeadSeal_buf, C.aeadSeal_tag _ _ _ _ _ _ _ htag]
      · split at h
        · obtain ⟨tag, htag, h⟩ := Result.bind_ok.mp h
          obtain ⟨suite, -, htag⟩ := Result.bind_ok.mp htag
          rw [← Except.ok.inj h, List.length_append, C.gmac_tag _ _ _ _ _ _ htag]
        · obtain ⟨tag, -, h⟩ := Result.bind_ok.mp h
          rw [← Except.ok.inj h, C.aeadSeal_buf]
          exact Nat.le_add_right ..

/-- Whatever comes off was protected as the policy demands. -/
theorem unprotectAs_received {policy : SecurityPolicy} {control : SecurityControl}
    {title : SystemTitle} {counter : UInt32} {authKey buf plain : Bytes}
    (h : (p.unprotectAs C policy control title counter authKey buf).1 = .ok plain) :
    policy.checkReceived control = .ok () := by
  unfold unprotectAs at h
  obtain ⟨_, _, hc, -⟩ := Prog.bind_fst_ok h
  rw [Prog.ofExcept_run] at hc
  exact congrArg Prod.fst hc

theorem foldl_or_eq_zero (xs : Bytes) (a : UInt8) :
    xs.foldl (· ||| ·) a = 0 ↔ a = 0 ∧ ∀ x ∈ xs, x = 0 := by
  induction xs generalizing a with
  | nil => simp
  | cons x xs ih =>
    rw [List.foldl_cons, ih, UInt8.or_eq_zero_iff]
    simp [and_assoc]

/-- The comparison decides equality. -/
theorem constantTimeEq_iff (a b : Bytes) : constantTimeEq a b = true ↔ a = b := by
  unfold constantTimeEq
  by_cases hlen : a.length = b.length
  · rw [if_neg (by simpa using hlen), beq_iff_eq, foldl_or_eq_zero]
    simp only [true_and]
    induction a generalizing b with
    | nil => cases b with
      | nil => simp
      | cons => simp at hlen
    | cons x a ih =>
      cases b with
      | nil => simp at hlen
      | cons y b =>
        have := ih b (by simpa using hlen)
        simp only [List.zipWith_cons_cons, List.mem_cons, forall_eq_or_imp, this,
          UInt8.xor_eq_zero_iff, List.cons.injEq]
  · rw [if_pos (by simpa using hlen)]
    simp only [Bool.false_eq_true, false_iff]
    rintro rfl
    exact hlen rfl

end Protector

end Dlms
