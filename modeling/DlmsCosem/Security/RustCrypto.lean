import DlmsCosem.Lib.Gcm
import DlmsCosem.Security.Protect

/-!
# The provider with keys in memory

`RustCryptoProvider` keeps its keys in a `KeyRing` and takes the ciphers from other code (`Crates`).
A message authentication code is made from additional data in segments (`gmac`): a hash takes whole
blocks, and what does not fill a block waits for the next segment. What that leaves is the tag of the
segments' bytes (`gmac_eq`), so that the cuts between them do not matter (`gmac_flatten`).
-/

namespace Dlms

/-! ## Keys -/

/-- The keys of one association. -/
structure KeyRing where
  guek : Option Key
  gbek : Option Key
  gak : Option Key
  kek : Option Key
  dedicated : Option Key

/-- `get`. -/
def KeyRing.get (ring : KeyRing) (usage : KeyUsage) : Option Bytes :=
  let slot := match usage with
    | .globalUnicastEncryption => ring.guek
    | .globalBroadcastEncryption => ring.gbek
    | .authentication => ring.gak
    | .keyEncrypting => ring.kek
    | .dedicated => ring.dedicated
  slot.map Key.bytes

/-- A key: one of the association's own, or bytes for one operation. -/
inductive KeyRef
  | usage (usage : KeyUsage)
  | raw (bytes : Bytes)

/-- `key_len`: the length of a key. -/
def SecuritySuite.keyLen : SecuritySuite → Nat
  | suite0 | suite1 => 16
  | suite2 => 32

/-! ## The ciphers -/

/-- A block cipher under a key. -/
structure BlockCipher where
  encryptBlock : Bytes → Bytes
  length_encryptBlock : ∀ b, (encryptBlock b).length = 16

/-- `encrypt_in_place_detached` under a key: the tag, if there is one, and the buffer after it. -/
abbrev Aead := (nonce aad buf : Bytes) → Option Bytes × Bytes

/-- The code the provider is built on: two block ciphers, a hash with a state `σ` and two ciphers in
Galois/counter mode, which take at most `aMax` bytes of additional data and `pMax` of plaintext. -/
structure Crates (σ : Type) where
  aes128 : Bytes → Option BlockCipher
  aes256 : Bytes → Option BlockCipher
  aes128Gcm : Bytes → Option Aead
  aes256Gcm : Bytes → Option Aead
  ghashNew : Bytes → σ
  ghashUpdate : σ → Bytes → σ
  ghashFinalize : σ → Bytes
  aMax : Nat
  pMax : Nat

/-- A cipher in Galois/counter mode over `E`, with a tag of twelve bytes. -/
def Aead.Follows (aead : Aead) (E : BlockCipher) (aMax pMax : Nat) : Prop :=
  ∀ nonce aad buf, nonce.length = 12 → aead nonce aad buf =
    if aad.length ≤ aMax ∧ buf.length ≤ pMax then
      (some ((Gcm.encrypt E.encryptBlock nonce aad buf).1.take 12),
        (Gcm.encrypt E.encryptBlock nonce aad buf).2)
    else (none, buf)

/-- What the ciphers promise: a key of the right length is taken, the hash takes blocks in order, and
both modes follow the standard within their limits. -/
structure Crates.Standard {σ : Type} (c : Crates σ) : Prop where
  aes128 : ∀ k, k.length = 16 → ∃ E, c.aes128 k = some E
  aes256 : ∀ k, k.length = 32 → ∃ E, c.aes256 k = some E
  ghash : ∀ h bs, h.length = 16 → (∀ b ∈ bs, b.length = 16) →
    c.ghashFinalize (bs.foldl c.ghashUpdate (c.ghashNew h)) = Gcm.store (Gcm.ghash (Gcm.load h) bs)
  aes128Gcm : ∀ k E, c.aes128 k = some E → ∃ aead, c.aes128Gcm k = some aead ∧
    aead.Follows E c.aMax c.pMax
  aes256Gcm : ∀ k E, c.aes256 k = some E → ∃ aead, c.aes256Gcm k = some aead ∧
    aead.Follows E c.aMax c.pMax
  aMax_lt : c.aMax < 2 ^ 61

namespace Crates

variable {σ : Type} (c : Crates σ)

/-- The block cipher of a suite. -/
def aes (suite : SecuritySuite) (k : Bytes) : Option BlockCipher :=
  if suite = .suite2 then c.aes256 k else c.aes128 k

/-- `encrypt_block`. -/
def encryptBlock (k : Bytes) (suite : SecuritySuite) (block : Bytes) : Result Bytes :=
  match c.aes suite k with
  | some E => .ok (E.encryptBlock block)
  | none => Error.fail .unsupported 0

/-! ## Segments -/

/-- `chunks_exact(16)`. -/
def chunksExact (bs : Bytes) : List Bytes :=
  (List.range (bs.length / 16)).map fun i => (bs.drop (16 * i)).take 16

/-- What `gmac` keeps from one segment to the next. -/
structure Absorbing (σ : Type) where
  hash : σ
  pending : Bytes
  pendingLen : Nat
  total : Nat

/-- Before the first segment. -/
def Absorbing.start (hash : σ) : Absorbing σ := ⟨hash, List.replicate 16 0, 0, 0⟩

/-- The loop over one segment. Every round takes a byte, so that the segment's length is enough fuel. -/
def absorb : Nat → Bytes → Absorbing σ → Absorbing σ
  | 0, _, st => st
  | fuel + 1, rest, st =>
    if rest.isEmpty then st
    else if st.pendingLen = 0 ∧ 16 ≤ rest.length then
      let whole := rest.length / 16 * 16
      absorb fuel (rest.drop whole)
        { st with hash := (chunksExact (rest.take whole)).foldl c.ghashUpdate st.hash }
    else
      let take := min rest.length (16 - st.pendingLen)
      let pending := SliceWriter.splice st.pending st.pendingLen (rest.take take)
      if st.pendingLen + take = 16 then
        absorb fuel (rest.drop take)
          { st with hash := c.ghashUpdate st.hash pending, pending, pendingLen := 0 }
      else absorb fuel (rest.drop take) { st with pending, pendingLen := st.pendingLen + take }

/-- One segment: its length is counted in sixty-four bits. -/
def absorbSegment (st : Absorbing σ) (segment : Bytes) : Result (Absorbing σ) :=
  if st.total + segment.length < 2 ^ 64 then
    .ok (c.absorb segment.length segment { st with total := st.total + segment.length })
  else Error.fail .invalidLength 0

/-- The hash after the last segment: the block that is not full is filled up. -/
def flush (st : Absorbing σ) : σ :=
  if 0 < st.pendingLen then
    c.ghashUpdate st.hash
      (SliceWriter.splice st.pending st.pendingLen (List.replicate (16 - st.pendingLen) 0))
  else st.hash

end Crates

/-! ## The provider -/

/-- `RustCryptoProvider`. -/
structure RustCryptoProvider where
  keys : KeyRing

namespace RustCryptoProvider

variable {σ : Type} (c : Crates σ) (p : RustCryptoProvider)

/-- `resolve`. -/
def resolve : KeyRef → Result Bytes
  | .raw b => .ok b
  | .usage u =>
    match p.keys.get u with
    | some b => .ok b
    | none => Error.fail .unsupported 0

/-- `tag_to_array`: the first twelve bytes. -/
def tagToArray (t : Bytes) : Bytes := t.take 12

/-- `aead_seal`. -/
def aeadSeal (key : KeyRef) (suite : SecuritySuite) (nonce aad buf : Bytes) : Result Bytes × Bytes :=
  match p.resolve key with
  | .error e => (.error e, buf)
  | .ok k =>
    let width := if suite = .suite2 then 32 else 16
    let mode := if suite = .suite2 then c.aes256Gcm else c.aes128Gcm
    if k.length ≠ width then (Error.fail .unsupported 0, buf)
    else
      match mode k with
      | none => (Error.fail .unsupported 0, buf)
      | some aead =>
        match aead nonce aad buf with
        | (none, buf) => (Error.fail .unsupported 0, buf)
        | (some tag, buf) => (.ok (tagToArray tag), buf)

/-- `gmac`. -/
def gmac (key : KeyRef) (suite : SecuritySuite) (nonce : Bytes) (aad : List Bytes) : Result Bytes := do
  let k ← p.resolve key
  if k.length ≠ suite.keyLen then Error.fail .unsupported 0
  else
    let zero := List.replicate 16 0
    let hashSubkey ← c.encryptBlock k suite zero
    let counterBlock ← c.encryptBlock k suite
      (SliceWriter.splice (SliceWriter.splice zero 0 nonce) 15 [1])
    let st ← aad.foldlM c.absorbSegment (Crates.Absorbing.start (c.ghashNew hashSubkey))
    let lengths := SliceWriter.splice zero 0 (beBytes 8 (st.total * 8 % 2 ^ 64))
    let s := c.ghashFinalize (c.ghashUpdate (c.flush st) lengths)
    .ok ((List.zipWith (· ^^^ ·) s counterBlock).take 12)

end RustCryptoProvider

/-! ## Absorbing -/

namespace Crates

theorem length_of_mem_chunksExact {bs b : Bytes} (h : b ∈ chunksExact bs) : b.length = 16 := by
  obtain ⟨i, hi, rfl⟩ := List.mem_map.mp h
  have hlt := List.mem_range.mp hi
  rw [List.length_take, List.length_drop]
  omega

/-- `n` chunks of a string that has so many. -/
theorem flatten_chunks {bs : Bytes} {n : Nat} (h : 16 * n ≤ bs.length) :
    ((List.range n).map fun i => (bs.drop (16 * i)).take 16).flatten = bs.take (16 * n) := by
  induction n with
  | zero => simp
  | succ n ih =>
    rw [List.range_succ, List.map_append, List.flatten_append, ih (by omega), Nat.mul_succ, List.take_add]
    simp

theorem flatten_chunksExact {bs : Bytes} (h : bs.length % 16 = 0) : (chunksExact bs).flatten = bs := by
  have hlen : 16 * (bs.length / 16) = bs.length := by omega
  rw [chunksExact, flatten_chunks (Nat.le_of_eq hlen), hlen, List.take_length]

variable {σ : Type} (c : Crates σ)

/-- What was absorbed so far is in the hash, in whole blocks, or waits. -/
structure Absorbing.Held (subkey past : Bytes) (st : Absorbing σ) : Prop where
  blocks : ∃ bs : List Bytes, (∀ b ∈ bs, b.length = 16) ∧
    past = bs.flatten ++ st.pending.take st.pendingLen ∧
    st.hash = bs.foldl c.ghashUpdate (c.ghashNew subkey)
  pendingLen_lt : st.pendingLen < 16
  length_pending : st.pending.length = 16

variable {c} {subkey past rest : Bytes} {st : Absorbing σ}

namespace Absorbing

theorem Held.start : Held c subkey [] (start (c.ghashNew subkey)) :=
  ⟨⟨[], nofun, rfl, rfl⟩, Nat.zero_lt_succ 15, rfl⟩

theorem Held.count (h : Held c subkey past st) (n : Nat) : Held c subkey past { st with total := n } :=
  ⟨h.blocks, h.pendingLen_lt, h.length_pending⟩

/-- Whole blocks are absorbed where none waits. -/
theorem Held.whole (h : Held c subkey past st) (hnone : st.pendingLen = 0) {ds : List Bytes}
    (hds : ∀ d ∈ ds, d.length = 16) :
    Held c subkey (past ++ ds.flatten) { st with hash := ds.foldl c.ghashUpdate st.hash } := by
  obtain ⟨bs, hbs, hpast, hhash⟩ := h.blocks
  refine ⟨⟨bs ++ ds, ?_, ?_, ?_⟩, h.pendingLen_lt, h.length_pending⟩
  · intro b hb
    obtain hb | hb := List.mem_append.mp hb
    · exact hbs b hb
    · exact hds b hb
  · simp [hpast, hnone]
  · simp [hhash]

/-- The bytes `bs` after those that wait. -/
theorem Held.fill (h : Held c subkey past st) {bs : Bytes} (hfit : st.pendingLen + bs.length ≤ 16) :
    (SliceWriter.splice st.pending st.pendingLen bs).length = 16 ∧
      (SliceWriter.splice st.pending st.pendingLen bs).take (st.pendingLen + bs.length) =
        st.pending.take st.pendingLen ++ bs := by
  have hroom : st.pendingLen + bs.length ≤ st.pending.length := by rw [h.length_pending]; exact hfit
  exact ⟨(SliceWriter.length_splice hroom).trans h.length_pending, SliceWriter.splice_take hroom⟩

/-- What does not fill the block waits. -/
theorem Held.wait (h : Held c subkey past st) {bs : Bytes} (hfit : st.pendingLen + bs.length < 16) :
    Held c subkey (past ++ bs)
      { st with
        pending := SliceWriter.splice st.pending st.pendingLen bs
        pendingLen := st.pendingLen + bs.length } := by
  obtain ⟨bs', hbs, hpast, hhash⟩ := h.blocks
  obtain ⟨hlen, htake⟩ := h.fill (Nat.le_of_lt hfit)
  refine ⟨⟨bs', hbs, ?_, hhash⟩, hfit, hlen⟩
  show past ++ bs = bs'.flatten ++ (SliceWriter.splice st.pending st.pendingLen bs).take _
  rw [htake, hpast, List.append_assoc]

/-- A block that is full is absorbed. -/
theorem Held.full (h : Held c subkey past st) {bs : Bytes} (hfull : st.pendingLen + bs.length = 16) :
    Held c subkey (past ++ bs)
      { st with
        hash := c.ghashUpdate st.hash (SliceWriter.splice st.pending st.pendingLen bs)
        pending := SliceWriter.splice st.pending st.pendingLen bs
        pendingLen := 0 } := by
  obtain ⟨bs', hbs, hpast, hhash⟩ := h.blocks
  obtain ⟨hlen, htake⟩ := h.fill (Nat.le_of_eq hfull)
  rw [hfull, List.take_of_length_le (Nat.le_of_eq hlen)] at htake
  refine ⟨⟨bs' ++ [SliceWriter.splice st.pending st.pendingLen bs], ?_, ?_, ?_⟩, Nat.zero_lt_succ 15, hlen⟩
  · intro b hb
    obtain hb | hb := List.mem_append.mp hb
    · exact hbs b hb
    · rw [List.mem_singleton.mp hb, hlen]
  · simp [hpast, htake]
  · simp [hhash]

end Absorbing

/-- The loop over a segment absorbs all of it. -/
theorem absorb_held {fuel : Nat} (h : st.Held c subkey past) (hfuel : rest.length ≤ fuel) :
    (c.absorb fuel rest st).Held c subkey (past ++ rest) ∧ (c.absorb fuel rest st).total = st.total := by
  induction fuel generalizing rest st past with
  | zero =>
    obtain rfl := List.eq_nil_of_length_eq_zero (Nat.le_zero.mp hfuel)
    rw [List.append_nil]
    exact ⟨h, rfl⟩
  | succ fuel ih =>
    unfold absorb
    split
    · rename_i hempty
      rw [List.isEmpty_iff.mp hempty, List.append_nil]
      exact ⟨h, rfl⟩
    · rename_i hne
      have hpos : 0 < rest.length := List.length_pos_of_ne_nil (by simpa using hne)
      split
      · rename_i hwhole
        have hlen : (rest.take (rest.length / 16 * 16)).length = rest.length / 16 * 16 := by
          rw [List.length_take]
          omega
        have hstep := h.whole hwhole.1 (fun d hd => length_of_mem_chunksExact hd :
          ∀ d ∈ chunksExact (rest.take (rest.length / 16 * 16)), d.length = 16)
        rw [flatten_chunksExact (by rw [hlen]; omega)] at hstep
        have := ih hstep (by rw [List.length_drop]; omega : (rest.drop (rest.length / 16 * 16)).length ≤ fuel)
        rwa [List.append_assoc, List.take_append_drop] at this
      · have hlt := h.pendingLen_lt
        have hlen : (rest.take (min rest.length (16 - st.pendingLen))).length =
            min rest.length (16 - st.pendingLen) := by
          rw [List.length_take]
          omega
        have hdrop : (rest.drop (min rest.length (16 - st.pendingLen))).length ≤ fuel := by
          rw [List.length_drop]
          omega
        dsimp only
        split
        · rename_i hfull
          have := ih (h.full (by rw [hlen]; exact hfull)) hdrop
          rwa [List.append_assoc, List.take_append_drop] at this
        · rename_i hnot
          have hstep := h.wait (by rw [hlen]; omega : st.pendingLen +
            (rest.take (min rest.length (16 - st.pendingLen))).length < 16)
          rw [hlen] at hstep
          have := ih hstep hdrop
          rwa [List.append_assoc, List.take_append_drop] at this

/-- The segments are absorbed one after another, as long as they can be counted. -/
theorem foldlM_absorbSegment (aad : List Bytes) (h : st.Held c subkey past) (hst : st.total < 2 ^ 64) :
    if st.total + aad.flatten.length < 2 ^ 64 then
      ∃ st', aad.foldlM c.absorbSegment st = .ok st' ∧ st'.Held c subkey (past ++ aad.flatten) ∧
        st'.total = st.total + aad.flatten.length
    else aad.foldlM c.absorbSegment st = Error.fail .invalidLength 0 := by
  induction aad generalizing st past with
  | nil =>
    rw [List.flatten_nil, List.length_nil, Nat.add_zero, if_pos hst, List.append_nil]
    exact ⟨st, rfl, h, rfl⟩
  | cons a aad ih =>
    rw [List.foldlM_cons, List.flatten_cons, List.length_append]
    by_cases hfit : st.total + a.length < 2 ^ 64
    · obtain ⟨hheld, htotal⟩ := absorb_held (h.count (st.total + a.length)) (Nat.le_refl a.length)
      have hstep : c.absorbSegment st a =
          .ok (c.absorb a.length a { st with total := st.total + a.length }) := if_pos hfit
      have hrest := ih hheld (by rw [htotal]; exact hfit)
      rw [htotal, List.append_assoc, Nat.add_assoc] at hrest
      rw [hstep]
      exact hrest
    · have hstep : c.absorbSegment st a = Error.fail .invalidLength 0 := if_neg hfit
      rw [if_neg (by omega), hstep]
      rfl

/-- What is left in the block is absorbed last. -/
theorem flush_held (h : st.Held c subkey past) :
    c.flush st = (Gcm.blocks past).foldl c.ghashUpdate (c.ghashNew subkey) := by
  obtain ⟨bs, hbs, hpast, hhash⟩ := h.blocks
  have hlt := h.pendingLen_lt
  have hlen : (st.pending.take st.pendingLen).length = st.pendingLen := by
    rw [List.length_take, h.length_pending]
    omega
  rw [hpast, Gcm.blocks_flatten hbs, List.foldl_append, ← hhash]
  unfold flush
  split
  · rename_i hpos
    have hfit : st.pendingLen + (List.replicate (16 - st.pendingLen) (0 : UInt8)).length ≤ 16 := by
      rw [List.length_replicate]
      omega
    obtain ⟨hfull, htake⟩ := h.fill hfit
    rw [List.length_replicate, show st.pendingLen + (16 - st.pendingLen) = 16 by omega,
      List.take_of_length_le (Nat.le_of_eq hfull)] at htake
    rw [Gcm.blocks_short (List.ne_nil_of_length_pos (by omega)) (by omega), htake, Gcm.pad, hlen]
    rfl
  · rename_i hzero
    rw [show st.pendingLen = 0 by omega, List.take_zero]
    rfl

/-- A key of the suite's length makes a cipher. -/
theorem Standard.aes (hc : c.Standard) {suite : SecuritySuite} {k : Bytes} (hlen : k.length = suite.keyLen) :
    ∃ E, c.aes suite k = some E := by
  cases suite with
  | suite2 => exact hc.aes256 k hlen
  | _ => exact hc.aes128 k hlen

end Crates

/-! ## The length block -/

theorem be64_eq (n : Nat) : Gcm.be64 n = beBytes 8 n := by
  apply List.ext_getElem (by simp [Gcm.be64])
  intro i _ hi
  rw [getElem_beBytes hi]
  simp [Gcm.be64]

theorem splice_lengths (n : Nat) :
    SliceWriter.splice (List.replicate 16 0) 0 (beBytes 8 (n * 8 % 2 ^ 64)) = Gcm.lengths n 0 := by
  have hmod : beBytes 8 (n * 8 % 2 ^ 64) = beBytes 8 (8 * n) := by
    rw [Nat.mul_comm]
    exact beBytes_mod 8 8 (8 * n) (Nat.le_refl 8)
  rw [hmod, Gcm.lengths, be64_eq, be64_eq, SliceWriter.splice]
  simp
  rfl

theorem splice_counter {nonce : Bytes} (hn : nonce.length = 12) :
    SliceWriter.splice (SliceWriter.splice (List.replicate 16 0) 0 nonce) 15 [1] = Gcm.firstCounter nonce := by
  have hinner : SliceWriter.splice (List.replicate 16 0) 0 nonce = nonce ++ List.replicate 4 0 := by
    simp [SliceWriter.splice, hn]
  rw [hinner, SliceWriter.splice, List.take_append, List.take_of_length_le (by omega), hn,
    List.drop_of_length_le (by simp [hn]), Gcm.firstCounter]
  simp

namespace RustCryptoProvider

variable {σ : Type} {c : Crates σ} {p : RustCryptoProvider} {key : KeyRef} {k nonce : Bytes}
  {suite : SecuritySuite} {E : BlockCipher}

/-- The authentication code of segments is the tag of their bytes. -/
theorem gmac_eq (hc : c.Standard) (hkey : p.resolve key = .ok k) (hlen : k.length = suite.keyLen)
    (hE : c.aes suite k = some E) (hn : nonce.length = 12) (aad : List Bytes) :
    p.gmac c key suite nonce aad =
      if aad.flatten.length < 2 ^ 64 then .ok ((Gcm.tag E.encryptBlock nonce aad.flatten []).take 12)
      else Error.fail .invalidLength 0 := by
  have hblock : ∀ b, c.encryptBlock k suite b = .ok (E.encryptBlock b) := by
    intro b
    rw [Crates.encryptBlock, hE]
  unfold gmac
  rw [hkey]
  show (if k.length ≠ suite.keyLen then _ else _) = _
  rw [if_neg (not_not.mpr hlen), hblock, hblock, splice_counter hn]
  show (aad.foldlM c.absorbSegment _ >>= _) = _
  have hstart : (Crates.Absorbing.start (c.ghashNew (E.encryptBlock (List.replicate 16 0)))).Held c _ [] := .start
  have hfold := Crates.foldlM_absorbSegment aad hstart (Nat.two_pow_pos 64)
  rw [List.nil_append, show (Crates.Absorbing.start _).total = 0 from rfl, Nat.zero_add] at hfold
  split
  · rename_i hfit
    rw [if_pos hfit] at hfold
    obtain ⟨st, hst, hheld, htotal⟩ := hfold
    rw [hst]
    have hhash := hc.ghash (E.encryptBlock (List.replicate 16 0))
      (Gcm.blocks aad.flatten ++ [Gcm.lengths aad.flatten.length 0]) (E.length_encryptBlock _) (by
        intro b hb
        obtain hb | hb := List.mem_append.mp hb
        · exact Gcm.length_of_mem_blocks hb
        · rw [List.mem_singleton.mp hb, Gcm.length_lengths])
    rw [List.foldl_append, ← Crates.flush_held hheld, List.foldl_cons, List.foldl_nil] at hhash
    show Except.ok (((c.ghashFinalize _).zipWith _ _).take 12) = _
    rw [htotal, splice_lengths, hhash, Gcm.tag, Gcm.hash, Gcm.blocks_nil, List.append_nil]
    rfl
  · rename_i hlong
    rw [if_neg hlong] at hfold
    rw [hfold]
    rfl

/-- Sealing nothing gives the tag of the additional data, where the mode takes so much of it. -/
theorem aeadSeal_eq (hc : c.Standard) (hkey : p.resolve key = .ok k) (hlen : k.length = suite.keyLen)
    (hE : c.aes suite k = some E) (hn : nonce.length = 12) (aad : Bytes) :
    (p.aeadSeal c key suite nonce aad []).1 =
      if aad.length ≤ c.aMax then .ok ((Gcm.tag E.encryptBlock nonce aad []).take 12)
      else Error.fail .unsupported 0 := by
  have hwidth : k.length = if suite = .suite2 then 32 else 16 := by
    rw [hlen]
    cases suite <;> rfl
  have hmode : ∃ aead, (if suite = .suite2 then c.aes256Gcm else c.aes128Gcm) k = some aead ∧
      aead.Follows E c.aMax c.pMax := by
    unfold Crates.aes at hE
    split at hE
    · rw [if_pos ‹_›]
      exact hc.aes256Gcm k E hE
    · rw [if_neg ‹_›]
      exact hc.aes128Gcm k E hE
  obtain ⟨aead, haead, hfollows⟩ := hmode
  unfold aeadSeal
  rw [hkey]
  dsimp only
  rw [if_neg (not_not.mpr hwidth), haead]
  dsimp only
  rw [hfollows nonce aad [] hn, Gcm.encrypt_nil]
  by_cases hmax : aad.length ≤ c.aMax
  · rw [if_pos hmax, if_pos ⟨hmax, Nat.zero_le _⟩]
    show Except.ok (List.take 12 (List.take 12 _)) = _
    rw [List.take_take]
    rfl
  · rw [if_neg hmax, if_neg fun h => hmax h.1]

/-- Where additional data is cut into segments makes no difference to its authentication code, and the
code is the tag that sealing nothing with this data gives. -/
theorem gmac_flatten (hc : c.Standard) (hkey : p.resolve key = .ok k) (hlen : k.length = suite.keyLen)
    (hn : nonce.length = 12) (aad : List Bytes) :
    p.gmac c key suite nonce aad = p.gmac c key suite nonce [aad.flatten] ∧
      (∀ tag, (p.aeadSeal c key suite nonce aad.flatten []).1 = .ok tag →
        p.gmac c key suite nonce aad = .ok tag) ∧
      (aad.flatten.length ≤ c.aMax → ∃ tag, (p.aeadSeal c key suite nonce aad.flatten []).1 = .ok tag) := by
  obtain ⟨E, hE⟩ := hc.aes hlen
  have hgmac := gmac_eq hc hkey hlen hE hn
  have hseal := aeadSeal_eq hc hkey hlen hE hn aad.flatten
  refine ⟨?_, fun tag htag => ?_, fun hmax => ⟨_, hseal.trans (if_pos hmax)⟩⟩
  · rw [hgmac aad, hgmac [aad.flatten], List.flatten_singleton]
  · rw [hseal] at htag
    split at htag
    · rename_i hmax
      have := hc.aMax_lt
      rw [hgmac aad, if_pos (by omega), htag]
    · cases htag

/-! ### A published test vector -/

/-- The key, nonce and additional data. -/
def sampleKey : Bytes :=
  [0xFE, 0xFF, 0xE9, 0x92, 0x86, 0x65, 0x73, 0x1C, 0x6D, 0x6A, 0x8F, 0x94, 0x67, 0x30, 0x83, 0x08]

def sampleNonce : Bytes := [0xCA, 0xFE, 0xBA, 0xBE, 0xFA, 0xCE, 0xDB, 0xAD, 0xDE, 0xCA, 0xF8, 0x88]

def sampleAad : Bytes :=
  [0xFE, 0xED, 0xFA, 0xCE, 0xDE, 0xAD, 0xBE, 0xEF, 0xFE, 0xED, 0xFA, 0xCE, 0xDE, 0xAD, 0xBE, 0xEF,
    0xAB, 0xAD, 0xDA, 0xD2]

/-- The block cipher under the sample key, on the two blocks that are asked of it. -/
def sampleCipher : BlockCipher where
  encryptBlock b :=
    if b = List.replicate 16 0 then
      [0xB8, 0x3B, 0x53, 0x37, 0x08, 0xBF, 0x53, 0x5D, 0x0A, 0xA6, 0xE5, 0x29, 0x80, 0xD5, 0x3B, 0x78]
    else
      [0x32, 0x47, 0x18, 0x4B, 0x3C, 0x4F, 0x69, 0xA4, 0x4D, 0xBC, 0xD2, 0x28, 0x87, 0xBB, 0xB4, 0x18]
  length_encryptBlock b := by split <;> rfl

/-- A mode over a block cipher, with the limits of `sampleCrates`. -/
def sampleAead (E : BlockCipher) : Aead := fun nonce aad buf =>
  if aad.length ≤ 2 ^ 36 ∧ buf.length ≤ 2 ^ 36 then
    (some ((Gcm.encrypt E.encryptBlock nonce aad buf).1.take 12),
      (Gcm.encrypt E.encryptBlock nonce aad buf).2)
  else (none, buf)

/-- Ciphers for the sample. The hash keeps its subkey and its blocks. -/
def sampleCrates : Crates (Bytes × List Bytes) where
  aes128 k := if k.length = 16 then some sampleCipher else none
  aes256 k := if k.length = 32 then some sampleCipher else none
  aes128Gcm k := if k.length = 16 then some (sampleAead sampleCipher) else none
  aes256Gcm k := if k.length = 32 then some (sampleAead sampleCipher) else none
  ghashNew h := (h, [])
  ghashUpdate s b := (s.1, s.2 ++ [b])
  ghashFinalize s := Gcm.store (Gcm.ghash (Gcm.load s.1) s.2)
  aMax := 2 ^ 36
  pMax := 2 ^ 36

theorem foldl_ghashUpdate (h : Bytes) (bs cs : List Bytes) :
    cs.foldl sampleCrates.ghashUpdate (h, bs) = (h, bs ++ cs) := by
  induction cs generalizing bs with
  | nil => simp
  | cons b cs ih =>
    rw [List.foldl_cons]
    exact (ih (bs ++ [b])).trans (by rw [List.append_assoc]; rfl)

theorem sampleCrates_standard : sampleCrates.Standard where
  aes128 _ hk := ⟨_, if_pos hk⟩
  aes256 _ hk := ⟨_, if_pos hk⟩
  ghash h bs _ _ := by
    show sampleCrates.ghashFinalize (bs.foldl sampleCrates.ghashUpdate (h, [])) = _
    rw [foldl_ghashUpdate, List.nil_append]
    rfl
  aes128Gcm k E hE := by
    obtain ⟨hk, hE⟩ := Option.ite_none_right_eq_some.mp hE
    exact ⟨_, if_pos hk, Option.some.inj hE ▸ fun _ _ _ _ => rfl⟩
  aes256Gcm k E hE := by
    obtain ⟨hk, hE⟩ := Option.ite_none_right_eq_some.mp hE
    exact ⟨_, if_pos hk, Option.some.inj hE ▸ fun _ _ _ _ => rfl⟩
  aMax_lt := by decide

/-- A provider that holds no keys. -/
def sampleProvider : RustCryptoProvider where
  keys := { guek := none, gbek := none, gak := none, kek := none, dedicated := none }

/-- Twenty bytes of additional data, cut after one and after seventeen and with an empty segment. -/
theorem gmac_flatten_sample :
    sampleProvider.gmac sampleCrates (.raw sampleKey) .suite0 sampleNonce
        [sampleAad.take 1, (sampleAad.drop 1).take 16, [], sampleAad.drop 17] =
      .ok [0x34, 0x64, 0x34, 0xFD, 0x51, 0xD5, 0xCD, 0x0C, 0x58, 0x87, 0xEC, 0x63] := by
  have h := @gmac_flatten _ _ sampleProvider (.raw sampleKey) _ sampleNonce .suite0 sampleCrates_standard rfl rfl
    rfl [sampleAad.take 1, (sampleAad.drop 1).take 16, [], sampleAad.drop 17]
  exact h.2.1 _ (by decide +kernel)

end RustCryptoProvider

end Dlms
