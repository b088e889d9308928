import DlmsCosem.Security.Wrap

/-!
# A provider that can be run

The results about the two ends hold for every `CryptoProvider`. To run them on an input a small one
is enough: a key is one byte, the cipher adds it to every byte, and the tag is a checksum that the
key goes into. As in a real provider, opening inverts sealing and a changed tag is refused.
-/

namespace Dlms

/-- The keys of the sample provider. -/
structure SampleKeys where
  global : UInt8
  authentication : Option Bytes
  dedicated : Option Key

namespace SampleKeys

/-- No more than one key. -/
def plain : SampleKeys := ⟨7, none, none⟩

/-- A key and an authentication key. -/
def authenticating : SampleKeys := ⟨7, some [1], none⟩

/-- The key for a use. -/
def keyFor (k : SampleKeys) : KeyUsage → Result UInt8
  | .dedicated =>
    match k.dedicated with
    | some key => .ok (key.bytes.headD 0)
    | none => Error.fail .unsupported 0
  | _ => .ok k.global

/-- The tag over some byte strings. -/
def tag (key : UInt8) (parts : List Bytes) : Bytes :=
  beBytes 12 (parts.flatten.foldl (fun h b => (h * 257 + b.toNat + 1) % 256 ^ 12) key.toNat)

theorem length_tag (key : UInt8) (parts : List Bytes) : (tag key parts).length = 12 :=
  length_beBytes ..

end SampleKeys

/-- The sample provider. -/
def sampleProvider : CryptoProvider SampleKeys where
  aeadSeal k usage _ nonce aad buf :=
    match k.keyFor usage with
    | .error e => (.error e, buf)
    | .ok key =>
      let out := buf.map (· + key)
      (.ok (SampleKeys.tag key [nonce, aad, out]), out)
  aeadOpen k usage _ nonce aad buf tag :=
    match k.keyFor usage with
    | .error e => (.error e, buf)
    | .ok key =>
      if tag = SampleKeys.tag key [nonce, aad, buf] then (.ok (), buf.map (· - key))
      else (Error.fail .badTag 0, buf)
  gmac k usage _ nonce aad :=
    match k.keyFor usage with
    | .error e => .error e
    | .ok key => .ok (SampleKeys.tag key (nonce :: aad))
  authenticationKey k := k.authentication
  dedicatedKey k := k.dedicated.map Key.bytes
  setDedicatedKey k key := (.ok (), { k with dedicated := some key })
  clearDedicatedKey k := { k with dedicated := none }
  aeadSeal_buf := by
    intro p k s n a b
    dsimp only
    split <;> simp
  aeadSeal_tag := by
    intro p k s n a b t h
    dsimp only at h
    split at h
    · cases h
    · obtain rfl := Except.ok.inj h
      exact SampleKeys.length_tag ..
  aeadOpen_buf := by
    intro p k s n a b t
    split
    · rfl
    · split <;> simp
  gmac_tag := by
    intro p k s n a t h
    split at h
    · cases h
    · obtain rfl := Except.ok.inj h
      exact SampleKeys.length_tag ..

/-- The title of a sender. -/
def sampleTitle : SystemTitle := ⟨[0x4D, 0x4D, 0x4D, 0, 0, 0, 0, 1], rfl⟩

/-- A policy that authenticates and encrypts. -/
def samplePolicy : SecurityPolicy := ⟨.suite0, true, true, .globalUnicast⟩

/-- What the sender sends under, and the receiver expects. -/
def sampleOutgoing : Outgoing := ⟨sampleTitle, 5, some [1], samplePolicy, false⟩

def sampleIncoming : Incoming := ⟨none, some sampleTitle, some [1], samplePolicy, []⟩

/-- The start of a GET request, and the frame it goes out in. -/
def samplePlain : Bytes := [0xC0, 0x01, 0xC1, 0x00]

def sampleFrame : Bytes :=
  [0xC8, 0x15, 0x30, 0x00, 0x00, 0x00, 0x05, 0xC7, 0x08, 0xC8, 0x07, 0xB5, 0x49, 0x9C, 0x3A, 0x03, 0x75,
    0x64, 0x2F, 0x16, 0xC2, 0xD2, 0xD5]

/-- Opening inverts sealing. -/
theorem sampleProvider_open_seal {k : SampleKeys} {usage : KeyUsage} {suite : SecuritySuite}
    {nonce aad buf tag : Bytes}
    (h : (sampleProvider.aeadSeal k usage suite nonce aad buf).1 = .ok tag) :
    sampleProvider.aeadOpen k usage suite nonce aad
      (sampleProvider.aeadSeal k usage suite nonce aad buf).2 tag = (.ok (), buf) := by
  simp only [sampleProvider] at h ⊢
  cases hk : k.keyFor usage with
  | error e => rw [hk] at h; cases h
  | ok key =>
    rw [hk] at h
    obtain rfl := Except.ok.inj h
    have hinv : ((· - key) ∘ (· + key) : UInt8 → UInt8) = id := by
      funext b
      simp
    simp [hinv]

end Dlms
