import DlmsCosem.Security.Acceptance
import DlmsCosem.Xdlms.ReadBack

/-!
# What is protected comes back

`CryptoProvider.Inverts` is what both ends rest on: the receiver's provider opens what the sender's
seals. Then a payload comes off its protection as it went on (`Protector.unprotectAs_protectAs`), and a
whole APDU does (`unprotectApdu_protectApdu`): the header that the sender lays down by hand is the one
that the decoders read.
-/

namespace Dlms

variable {π : Type} (C : CryptoProvider π)

/-- The provider protects any message under the policy: its keys are there. -/
structure CryptoProvider.Seals (p : π) (policy : SecurityPolicy) (authKey : Bytes) : Prop where
  authKey_le : authKey.length ≤ Key.maxLen
  aead : ∀ nonce aad buf, ∃ tag,
    (C.aeadSeal p policy.keyUsage policy.suite nonce aad buf).1 = .ok tag
  mac : ∀ nonce aad, ∃ tag, C.gmac p policy.keyUsage policy.suite nonce aad = .ok tag

theorem SecurityPolicy.control_suite (p : SecurityPolicy) : p.control.suite = p.suite.id := by
  obtain ⟨suite, a, e, k⟩ := p
  cases suite <;> cases a <;> cases e <;> cases k <;> decide

theorem SecurityPolicy.control_bits (p : SecurityPolicy) :
    p.control.authenticated = p.authenticated ∧ p.control.encrypted = p.encrypted := by
  obtain ⟨suite, a, e, k⟩ := p
  cases suite <;> cases a <;> cases e <;> cases k <;> decide

/-- Where the keys are there and there is room, a message can be protected. -/
theorem Protector.protectAs_total (p : Protector π) {policy : SecurityPolicy} (title : SystemTitle)
    (counter : UInt32) {authKey : Bytes} (plaintext : Bytes) (room : Nat)
    (h : C.Seals p.provider policy authKey) (hnone : policy.isNone = false)
    (hroom : plaintext.length + (if policy.authenticated then SecuritySuite.tagLen else 0) ≤ room) :
    ∃ out, p.protectAs C policy title counter authKey plaintext room = .ok out ∧
      out.length = plaintext.length + if policy.authenticated then SecuritySuite.tagLen else 0 := by
  have haad : Protector.buildAad policy.control authKey = .ok (policy.control.val :: authKey) :=
    if_neg (by have := h.authKey_le; omega)
  unfold Protector.protectAs
  dsimp only
  rw [if_neg (by simp [hnone]), if_neg (by omega)]
  by_cases ha : policy.authenticated = true
  · simp only [ha, Bool.true_and, if_true]
    by_cases he : policy.encrypted = true
    · rw [if_pos he, haad]
      obtain ⟨tag, htag⟩ := h.aead (nonce title counter) (policy.control.val :: authKey) plaintext
      refine ⟨_, by rw [Result.bind_ok]; exact ⟨_, rfl, by rw [htag]; rfl⟩, ?_⟩
      rw [List.length_append, C.aeadSeal_buf, C.aeadSeal_tag _ _ _ _ _ _ _ htag]
    · rw [if_neg he]
      obtain ⟨tag, htag⟩ := h.mac (nonce title counter) [[policy.control.val], authKey, plaintext]
      have hmac : p.gmacWith C policy policy.control authKey (nonce title counter) plaintext =
          .ok tag := by
        unfold Protector.gmacWith
        rw [policy.control_suite, SecuritySuite.fromId_id]
        exact htag
      refine ⟨plaintext ++ tag, by rw [hmac]; rfl, ?_⟩
      rw [List.length_append, C.gmac_tag _ _ _ _ _ _ htag]
  · obtain ⟨tag, htag⟩ := h.aead (nonce title counter) [] plaintext
    rw [if_neg (by simp [ha]), if_neg ha, if_neg ha]
    exact ⟨_, by rw [htag]; rfl, by rw [C.aeadSeal_buf, Nat.add_zero]⟩

variable {C}

/-! ## Lengths under protection -/

/-- How long the start of a header is: a ciphered tag, or a general wrapper and a system title. -/
def Outgoing.startSize (ctx : Outgoing) (tag : ApduTag) : Nat :=
  if (tag.protectedAs ctx.protection).isSome then 1 else 1 + (1 + 8)

/-- There is a wrapper for the tag. -/
def Outgoing.Agreed (ctx : Outgoing) (tag : ApduTag) : Prop :=
  (tag.protectedAs ctx.protection).isSome = true ∨ ctx.generalAllowed = true

/-- How long the protected form of `n` bytes is. -/
def Outgoing.wrapped (ctx : Outgoing) (tag : ApduTag) (n : Nat) : Nat :=
  let body := 5 + (n + if ctx.policy.authenticated then SecuritySuite.tagLen else 0)
  ctx.startSize tag + (Emit.lengthSize body + body)

namespace Outgoing

variable {ctx : Outgoing} {tag : ApduTag}

theorem start_sized (h : ctx.Agreed tag) :
    ∃ e, ctx.start tag = .ok e ∧ e.Sized (ctx.startSize tag) := by
  unfold start startSize
  cases hp : tag.protectedAs ctx.protection with
  | some t => exact ⟨_, rfl, .u8 _⟩
  | none =>
    have hg : ctx.generalAllowed = true := by
      obtain h | h := h
      · rw [hp] at h
        cases h
      · exact h
    have hlen : ctx.systemTitle.bytes.length = 8 := ctx.systemTitle.length_eq
    have htitle : (Emit.lengthPrefixed ctx.systemTitle.bytes).Sized
        (Emit.lengthSize ctx.systemTitle.bytes.length + ctx.systemTitle.bytes.length) :=
      Emit.lengthPrefixed_sized (by omega)
    rw [hlen] at htitle
    have hone : Emit.lengthSize 8 = 1 := rfl
    rw [hone] at htitle
    dsimp only
    rw [if_neg (by simp [hg])]
    exact ⟨_, rfl, (Emit.Sized.u8 _).append htitle⟩

theorem start_agreed {e : Emit} (h : ctx.start tag = .ok e) : ctx.Agreed tag := by
  unfold start at h
  unfold Agreed
  cases hp : tag.protectedAs ctx.protection with
  | some t => exact .inl rfl
  | none =>
    rw [hp] at h
    dsimp only at h
    by_cases hg : ctx.generalAllowed = true
    · exact .inr hg
    · rw [if_pos (by simpa using hg)] at h
      cases h

/-- A header, where there is a wrapper. -/
theorem header_sized (h : ctx.Agreed tag) {n : Nat} (hn : 5 + n < 2 ^ 32) :
    ∃ bs, ctx.header tag n = .ok bs ∧
      bs.length = ctx.startSize tag + (Emit.lengthSize (5 + n) + 1 + 4) := by
  obtain ⟨e, he, hsized⟩ := start_sized h
  have hall := hsized.append (((Emit.length_sized hn).append (.u8 ctx.policy.control.val)).append
    (.u32 ctx.invocationCounter))
  have hle := Emit.lengthSize_le (5 + n)
  have hstart : ctx.startSize tag ≤ 10 := by
    unfold startSize
    split <;> omega
  refine ⟨_, ?_, hall.size⟩
  unfold header
  rw [he]
  exact SliceWriter.encodeInto_fits hall.fault (by rw [hall.size, length_zeros, headerMax]; omega)

end Outgoing

section Inverse

variable {p q : Protector π} {policy : SecurityPolicy} {title : SystemTitle} {counter : UInt32}
  {key plain payload : Bytes} {room : Nat}

variable (C) in
/-- The provider `q` opens what `p` seals under a key, and computes the same codes. Without a tag the
cipher is counter mode, which is its own inverse. -/
structure CryptoProvider.Inverts (p q : π) (usage : KeyUsage) (suite : SecuritySuite) : Prop where
  opens : ∀ nonce aad buf tag out, C.aeadSeal p usage suite nonce aad buf = (.ok tag, out) →
    C.aeadOpen q usage suite nonce aad out tag = (.ok (), buf)
  counterMode : ∀ nonce buf tag out, C.aeadSeal p usage suite nonce [] buf = (.ok tag, out) →
    ∃ tag', C.aeadSeal q usage suite nonce [] out = (.ok tag', buf)
  mac : ∀ nonce aad, C.gmac q usage suite nonce aad = C.gmac p usage suite nonce aad

theorem SecurityPolicy.checkReceived_control (policy : SecurityPolicy) :
    policy.checkReceived policy.control = .ok () := by
  obtain ⟨suite, a, e, k⟩ := policy
  cases suite <;> cases a <;> cases e <;> cases k <;> rfl

/-- What a protected payload is made of, in the three forms of protection. -/
inductive Protector.Protects (C : CryptoProvider π) (p : Protector π) (policy : SecurityPolicy)
    (iv key plain : Bytes) : Bytes → Prop
  | sealed {tag out : Bytes} : policy.authenticated = true → policy.encrypted = true →
    Protector.buildAad policy.control key = .ok (policy.control.val :: key) →
    C.aeadSeal p.provider policy.keyUsage policy.suite iv (policy.control.val :: key) plain =
      (.ok tag, out) → Protects C p policy iv key plain (out ++ tag)
  | signed {tag : Bytes} : policy.authenticated = true → policy.encrypted = false →
    C.gmac p.provider policy.keyUsage policy.suite iv [[policy.control.val], key, plain] = .ok tag →
    Protects C p policy iv key plain (plain ++ tag)
  | hidden {tag out : Bytes} : policy.authenticated = false →
    C.aeadSeal p.provider policy.keyUsage policy.suite iv [] plain = (.ok tag, out) →
    Protects C p policy iv key plain out

theorem Protector.protectAs_ok (hp : policy.isNone = false)
    (h : p.protectAs C policy title counter key plain room = .ok payload) :
    Protects C p policy (nonce title counter) key plain payload := by
  unfold protectAs at h
  dsimp only at h
  rw [hp, if_neg Bool.false_ne_true] at h
  by_cases hroom : room < plain.length + if policy.authenticated = true then SecuritySuite.tagLen else 0
  · rw [if_pos hroom] at h
    cases h
  · rw [if_neg hroom] at h
    cases ha : policy.authenticated with
    | true =>
      cases he : policy.encrypted with
      | true =>
        rw [ha, he, Bool.and_self, if_pos rfl] at h
        obtain ⟨aad, haad, h⟩ := Result.bind_ok.mp h
        obtain ⟨tag, htag, h⟩ := Result.bind_ok.mp h
        obtain rfl := Except.ok.inj h
        have haad' : aad = policy.control.val :: key := by
          unfold buildAad at haad
          split at haad
          · cases haad
          · exact (Except.ok.inj haad).symm
        rw [haad'] at haad htag ⊢
        exact .sealed ha he haad (Prod.ext htag rfl)
      | false =>
        rw [ha, he, Bool.and_false, if_neg Bool.false_ne_true, if_pos rfl] at h
        obtain ⟨tag, htag, h⟩ := Result.bind_ok.mp h
        obtain rfl := Except.ok.inj h
        unfold gmacWith at htag
        rw [policy.control_suite, SecuritySuite.fromId_id] at htag
        exact .signed ha he htag
    | false =>
      rw [ha, Bool.false_and, if_neg Bool.false_ne_true, if_neg Bool.false_ne_true] at h
      obtain ⟨tag, htag, h⟩ := Result.bind_ok.mp h
      obtain rfl := Except.ok.inj h
      exact .hidden ha (Prod.ext htag rfl)

theorem Protector.Protects.length {iv : Bytes} (h : Protects C p policy iv key plain payload) :
    payload.length = plain.length + if policy.authenticated then SecuritySuite.tagLen else 0 := by
  cases h with
  | sealed ha _ _ hs =>
    have hbody := C.aeadSeal_buf p.provider policy.keyUsage policy.suite iv
      (policy.control.val :: key) plain
    rw [hs] at hbody
    rw [List.length_append, hbody, C.aeadSeal_tag _ _ _ _ _ _ _ (congrArg Prod.fst hs), ha, if_pos rfl]
  | signed ha _ hs => rw [List.length_append, C.gmac_tag _ _ _ _ _ _ hs, ha, if_pos rfl]
  | hidden ha hs =>
    have hbody := C.aeadSeal_buf p.provider policy.keyUsage policy.suite iv [] plain
    rw [hs] at hbody
    rw [hbody, ha, if_neg Bool.false_ne_true, Nat.add_zero]

/-- What goes on a message comes off it, and stands at the front of the buffer. -/
theorem Protector.unprotectAs_protects
    (hi : C.Inverts p.provider q.provider policy.keyUsage policy.suite) (hp : policy.isNone = false)
    (h : Protects C p policy (nonce title counter) key plain payload) :
    ∃ buf, q.unprotectAs C policy policy.control title counter key payload = (.ok plain, buf) ∧
      buf.take plain.length = plain := by
  obtain ⟨hauth, henc⟩ := policy.control_bits
  unfold unprotectAs
  rw [policy.checkReceived_control, Prog.ofExcept_ok, Prog.pure_bind_run, policy.control_suite,
    SecuritySuite.fromId_id, Prog.ofExcept_ok, Prog.pure_bind_run, Prog.gets_bind_run]
  unfold SecurityControl.isPlain
  dsimp only [id]
  rw [hauth, henc]
  cases h with
  | @sealed tag out ha he haad hs =>
    have hbody := C.aeadSeal_buf p.provider policy.keyUsage policy.suite (nonce title counter)
      (policy.control.val :: key) plain
    rw [hs] at hbody
    have hlen := C.aeadSeal_tag _ _ _ _ _ _ _ (congrArg Prod.fst hs)
    have hcut : (out ++ tag).length - SecuritySuite.tagLen = out.length := by
      rw [List.length_append, hlen, Nat.add_sub_cancel]
    have hrun : inPlace out.length (fun body => C.aeadOpen q.provider policy.keyUsage policy.suite
        (nonce title counter) (policy.control.val :: key) body ((out ++ tag).drop out.length))
        (out ++ tag) = (.ok (), plain ++ tag) := by
      unfold inPlace
      dsimp only
      rw [List.take_left' rfl, List.drop_left' rfl, hi.opens _ _ _ _ _ hs]
    refine ⟨plain ++ tag, ?_, List.take_left' rfl⟩
    rw [ha, if_neg (by simp), if_neg (by simp), if_neg (by rw [List.length_append, hlen]; omega),
      if_pos he, haad, Prog.ofExcept_ok, Prog.pure_bind_run, hcut, Prog.bind_run_ok hrun, Prog.gets_run,
      hbody, List.take_left' rfl]
  | @signed tag ha he hs =>
    have hlen := C.gmac_tag _ _ _ _ _ _ hs
    have hcut : (plain ++ tag).length - SecuritySuite.tagLen = plain.length := by
      rw [List.length_append, hlen, Nat.add_sub_cancel]
    have hmac : q.gmacWith C policy policy.control key (nonce title counter) plain = .ok tag := by
      unfold gmacWith
      rw [policy.control_suite, SecuritySuite.fromId_id]
      exact (hi.mac _ _).trans hs
    refine ⟨plain ++ tag, ?_, List.take_left' rfl⟩
    rw [ha, if_neg (by simp), if_neg (by simp), if_neg (by rw [List.length_append, hlen]; omega),
      if_neg (by simp [he]), hcut, List.take_left' rfl, hmac, Prog.ofExcept_ok, Prog.pure_bind_run,
      List.drop_left' rfl, if_pos ((constantTimeEq_iff tag tag).mpr rfl),
      Prog.gets_run, List.take_left' rfl]
  | @hidden tag _ ha hs =>
    have he : policy.encrypted = true := by
      unfold SecurityPolicy.isNone at hp
      rw [ha] at hp
      simpa using hp
    obtain ⟨tag', hs'⟩ := hi.counterMode _ _ _ _ hs
    have hrun : inPlace payload.length (C.aeadSeal q.provider policy.keyUsage policy.suite
        (nonce title counter) []) payload = (.ok tag', plain) := by
      unfold inPlace
      rw [List.take_length, List.drop_length, List.append_nil, hs']
    refine ⟨plain, ?_, List.take_length⟩
    rw [ha, he, if_neg (by simp), if_pos (by simp), Prog.bind_run_ok hrun, Prog.gets_run]
    rfl

/-! ## The header and the decoders -/

/-- The ciphered form of a tag is read as that. -/
theorem Incoming.readWrapper_service {ctx : Incoming} {tag plainTag : ApduTag} {protection : Protection}
    (htag : tag.unprotect = some (protection, plainTag)) (r : Reader) :
    ctx.readWrapper tag r = (do
      Read.skip 1
      Prog.ofExcept (ctx.checkDedicated (protection = .dedicated))
      return some ⟨some plainTag, ← CipheredService.decode⟩ : Read (Option Wrapped)) r := by
  cases tag <;> cases htag <;> rfl

theorem Takes.skip_one (b : UInt8) : Takes (Read.skip 1) [b] fun _ => True :=
  (Takes.take [b]).map fun _ _ => trivial

/-- What goes out under a ciphered tag is read back. -/
theorem Incoming.takes_service {ctx : Incoming} {tag plainTag : ApduTag} {protection : Protection}
    {c : CipheredService} (htag : tag.unprotect = some (protection, plainTag))
    (hded : ctx.policy.dedicated = decide (protection = .dedicated))
    (h : 5 + c.payload.length < 2 ^ 32) :
    Takes (ctx.readWrapper tag) (tag.asU8 :: c.encode.data) (some ⟨some plainTag, c⟩ = ·) := by
  have hcheck : ctx.checkDedicated (protection = .dedicated) = .ok () := by
    unfold checkDedicated
    rw [hded, if_neg (by simp)]
  have hall : Takes (do
      Read.skip 1
      Prog.ofExcept (ctx.checkDedicated (protection = .dedicated))
      return some ⟨some plainTag, ← CipheredService.decode⟩ : Read (Option Wrapped))
      ([tag.asU8] ++ c.encode.data) (some ⟨some plainTag, c⟩ = ·) := by
    refine (Takes.skip_one _).bind fun _ _ => ?_
    rw [hcheck]
    exact (CipheredService.takes h).map fun _ hc => by rw [hc]
  intro r tail hr
  rw [readWrapper_service htag]
  exact hall r tail hr

theorem GeneralGloCiphering.takes {title : SystemTitle} {c : CipheredService}
    (h : 5 + c.payload.length < 2 ^ 32) : Takes decode
      ((Emit.lengthPrefixed title.bytes).data ++ c.encode.data) (⟨title.bytes, c⟩ = ·) := by
  refine (Takes.lengthPrefixed (by rw [title.length_eq]; norm_num)).bind fun t ht => ?_
  subst ht
  exact (CipheredService.takes h).map fun _ hc => by rw [hc]

/-- What goes out in a general wrapper is read back. -/
theorem Incoming.takes_general {ctx : Incoming} {tag : ApduTag} {title : SystemTitle}
    {c : CipheredService} (htag : tag = if ctx.policy.dedicated then .generalDedCiphering
      else .generalGloCiphering) (hpeer : ctx.peer = some title) (h : 5 + c.payload.length < 2 ^ 32) :
    Takes (ctx.readWrapper tag)
      (tag.asU8 :: ((Emit.lengthPrefixed title.bytes).data ++ c.encode.data)) (some ⟨none, c⟩ = ·) := by
  have hcheck : ctx.checkPeer title.bytes = .ok () := by
    unfold checkPeer
    rw [hpeer]
    exact if_neg (by simp)
  have hall (dedicated : Bool) (hded : dedicated = ctx.policy.dedicated) : Takes (do
      Read.skip 1
      let g ← GeneralGloCiphering.decode
      Prog.ofExcept (ctx.checkPeer g.systemTitle)
      Prog.ofExcept (ctx.checkDedicated dedicated)
      return some ⟨none, g.ciphered⟩ : Read (Option Wrapped))
      ([tag.asU8] ++ ((Emit.lengthPrefixed title.bytes).data ++ c.encode.data)) (some ⟨none, c⟩ = ·) := by
    refine (Takes.skip_one _).bind fun _ _ => ?_
    rw [← List.append_nil (_ ++ c.encode.data)]
    refine (GeneralGloCiphering.takes h).bind fun g hg => ?_
    subst hg
    dsimp only
    unfold checkDedicated
    rw [hcheck, if_neg (by simp [hded])]
    exact .pure rfl
  intro r tail hr
  cases hd : ctx.policy.dedicated with
  | true =>
    rw [hd, if_pos rfl] at htag
    subst htag
    exact hall true hd.symm r tail hr
  | false =>
    rw [hd, if_neg Bool.false_ne_true] at htag
    subst htag
    exact hall false hd.symm r tail hr

/-! ## A whole APDU -/

/-- What a receiver knows about the messages of a sender with the same keys and policy. -/
def Outgoing.received (ctx : Outgoing) (localTitle : Option SystemTitle) (plainAllowed : List ApduTag) :
    Incoming :=
  ⟨localTitle, some ctx.systemTitle, ctx.authKey, ctx.policy, plainAllowed⟩

/-- The frame that a message goes out in. -/
def Outgoing.frame (ctx : Outgoing) : Frame :=
  ⟨ctx.policy, ctx.policy.control, ctx.systemTitle, ctx.invocationCounter⟩

variable {ctx : Outgoing} {tag : ApduTag} {bytes : Bytes}

/-- A header ends in the length of what follows, the control byte and the counter. -/
theorem Outgoing.header_data {n : Nat} (h : ctx.header tag n = .ok bytes) :
    ∃ start, ctx.start tag = .ok start ∧ bytes = start.data ++ ((Emit.length (5 + n)).data ++
      ctx.policy.control.val :: beBytes 4 ctx.invocationCounter.toNat) := by
  unfold header at h
  obtain ⟨start, hstart, h⟩ := Result.bind_ok.mp h
  obtain ⟨hf, rfl, -⟩ := SliceWriter.encodeInto_ok h
  obtain ⟨h1, hrest⟩ := Emit.append_fault_eq_none.mp hf
  obtain ⟨h2, -⟩ := Emit.append_fault_eq_none.mp hrest
  obtain ⟨h3, -⟩ := Emit.append_fault_eq_none.mp h2
  refine ⟨start, hstart, ?_⟩
  rw [Emit.append_data h1, Emit.append_data h2, Emit.append_data h3, Emit.u8_data, Emit.u32,
    Emit.bytes_data, List.append_assoc, List.singleton_append]

/-- A body that was protected is opened, where its counter is fresh and there is room. -/
theorem openWrapped_protects {ictx : Incoming} {w : Wrapped}
    (hi : C.Inverts p.provider q.provider policy.keyUsage policy.suite) (hp : policy.isNone = false)
    (hpolicy : ictx.policy = policy) (hpeer : ictx.peer = some title) (hkey : ictx.authKey = some key)
    (hcontrol : w.ciphered.securityControl = policy.control)
    (h : Protector.Protects C p policy (nonce title w.ciphered.invocationCounter) key plain
      w.ciphered.payload)
    (htag : ∀ t, w.expectTag = some t → plain.head? = some t.asU8) {s : OpenState}
    (hfresh : s.replay.check w.ciphered.invocationCounter = .ok ())
    (hroom : w.ciphered.payload.length ≤ s.buf.length) :
    ∃ t, openWrapped C q ictx w s = (.ok ⟨plain, some ⟨policy, policy.control, title,
        w.ciphered.invocationCounter⟩⟩, t) ∧
      t.replay = s.replay.record w.ciphered.invocationCounter := by
  obtain ⟨front, hrun, hfront⟩ := Protector.unprotectAs_protects hi hp h
  have hcopy : copyIn w.ciphered.payload s =
      (.ok (), { s with buf := w.ciphered.payload ++ s.buf.drop w.ciphered.payload.length }) :=
    if_neg (by omega)
  have hopen : openIn w.ciphered.payload.length (q.unprotectAs C policy policy.control title
      w.ciphered.invocationCounter key)
      { s with buf := w.ciphered.payload ++ s.buf.drop w.ciphered.payload.length } =
      (.ok plain, { s with buf := front ++ s.buf.drop w.ciphered.payload.length }) := by
    unfold openIn
    rw [List.take_left' rfl, List.drop_left' rfl, hrun]
  have haccept := acceptCounter_fresh (s := { s with
    buf := front ++ s.buf.drop w.ciphered.payload.length }) hfresh
  have hle : plain.length ≤ front.length := by
    have := congrArg List.length hfront
    rw [List.length_take] at this
    omega
  have hbuf : (front ++ s.buf.drop w.ciphered.payload.length).take plain.length = plain := by
    rw [List.take_append_of_le_length hle, hfront]
  refine ⟨⟨s.replay.record w.ciphered.invocationCounter, front ++ s.buf.drop w.ciphered.payload.length⟩,
    ?_, rfl⟩
  unfold openWrapped
  rw [hpeer, hkey, hpolicy, hcontrol]
  dsimp only
  rw [Prog.gets_bind_run, hfresh, Prog.ofExcept_ok, Prog.pure_bind_run, Prog.bind_run_ok hcopy,
    Prog.bind_run_ok hopen, Prog.bind_run_ok haccept, Prog.gets_bind_run, hbuf]
  have hexpect : (w.expectTag.any fun t =>
      decide ((front ++ s.buf.drop w.ciphered.payload.length).head? ≠ some t.asU8)) = false := by
    cases ht : w.expectTag with
    | none => rfl
    | some t =>
      have hhead := htag t ht
      have hsame : (front ++ s.buf.drop w.ciphered.payload.length).head? = plain.head? := by
        rw [← hbuf, List.head?_take, if_neg]
        intro hzero
        rw [List.length_eq_zero_iff.mp hzero] at hhead
        cases hhead
      simp [hsame, hhead]
  rw [if_neg (by simpa using hexpect)]
  rfl

/-- The length of what stands before the length. -/
theorem Outgoing.start_length {start : Emit} (h : ctx.start tag = .ok start) :
    start.data.length = ctx.startSize tag := by
  obtain ⟨e, he, hsized⟩ := start_sized (start_agreed h)
  obtain rfl := Except.ok.inj (h.symm.trans he)
  exact hsized.size

/-- A body that is longer than the buffer is refused. -/
theorem openWrapped_overflows {ictx : Incoming} {w : Wrapped} {s : OpenState}
    (h : s.buf.length < w.ciphered.payload.length) : ∃ e t, openWrapped C q ictx w s = (.error e, t) := by
  have hcopy : copyIn w.ciphered.payload s = (.error ⟨.bufferTooSmall w.ciphered.payload.length, 0⟩, s) :=
    if_pos h
  unfold openWrapped
  cases ictx.peer with
  | none => exact ⟨_, _, rfl⟩
  | some peer =>
    dsimp only
    rw [Prog.gets_bind_run]
    cases s.replay.check w.ciphered.invocationCounter with
    | error e => exact ⟨_, _, rfl⟩
    | ok _ =>
      rw [Prog.ofExcept_ok, Prog.pure_bind_run, Prog.bind_run_error hcopy]
      exact ⟨_, _, rfl⟩

/-- A body with a number that the window does not take is refused, and nothing changes. -/
theorem openWrapped_stale {ictx : Incoming} {w : Wrapped} {s : OpenState} {peer : SystemTitle} {e : Error}
    (hpeer : ictx.peer = some peer) (h : s.replay.check w.ciphered.invocationCounter = .error e) :
    openWrapped C q ictx w s = (.error e, s) := by
  unfold openWrapped
  rw [hpeer]
  dsimp only
  rw [Prog.gets_bind_run, h]
  rfl

/-- An APDU whose wrapper is read is opened as its body is. -/
theorem unprotectApdu_takes {ictx : Incoming} {t : ApduTag} {w : Wrapped} {bs : Bytes}
    (ht : Takes (ictx.readWrapper t) (t.asU8 :: bs) (some w = ·)) (s : OpenState) :
    unprotectApdu C q ictx (t.asU8 :: bs) s = openWrapped C q ictx w s := by
  obtain ⟨_, r, hr, rfl, -⟩ := ht (Reader.new (t.asU8 :: bs)) [] (List.append_nil _).symm
  unfold unprotectApdu
  rw [List.headD_cons, ApduTag.fromU8_asU8]
  dsimp only
  rw [hr, Prog.ofExcept_ok, Prog.pure_bind_run]

/-- A whole APDU is opened where its body is. -/
theorem unprotectApdu_start {ictx : Incoming} {start : Emit} {c : CipheredService}
    (hstart : ctx.start tag = .ok start) (hpolicy : ictx.policy = ctx.policy)
    (hpeer : ictx.peer = some ctx.systemTitle) (h : 5 + c.payload.length < 2 ^ 32) :
    ∃ w : Wrapped, w.ciphered = c ∧ (∀ t, w.expectTag = some t → t = tag) ∧
      ∀ s, unprotectApdu C q ictx (start.data ++ c.encode.data) s = openWrapped C q ictx w s := by
  unfold Outgoing.start at hstart
  cases ht : tag.protectedAs ctx.protection with
  | some t =>
    rw [ht] at hstart
    obtain rfl := Except.ok.inj hstart
    have hne : ctx.protection ≠ .none := by
      unfold Outgoing.protection
      split <;> exact nofun
    have hun := ApduTag.unprotect_protectedAs hne ht
    have hded : ictx.policy.dedicated = decide (ctx.protection = .dedicated) := by
      rw [hpolicy]
      unfold Outgoing.protection
      cases ctx.policy.dedicated <;> rfl
    rw [Emit.u8_data, List.singleton_append]
    refine ⟨⟨some tag, c⟩, rfl, ?_, unprotectApdu_takes (Incoming.takes_service hun hded h)⟩
    rintro _ ⟨⟩
    rfl
  | none =>
    rw [ht] at hstart
    dsimp only at hstart
    split at hstart
    · cases hstart
    · obtain rfl := Except.ok.inj hstart
      rw [Emit.append_data (Emit.u8_fault _), Emit.u8_data, List.append_assoc, List.singleton_append]
      refine ⟨⟨none, c⟩, rfl, nofun, unprotectApdu_takes (Incoming.takes_general ?_ hpeer h)⟩
      rw [hpolicy]
      unfold Outgoing.protection
      cases ctx.policy.dedicated <;> rfl

/-- What `protect_apdu` makes of a message: its wrapper, and behind that the protected payload. -/
theorem protectApdu_protects {room : Nat} (hp : ctx.policy.isNone = false)
    (htag : plain.head?.bind ApduTag.fromU8 = some tag) (hsize : 5 + ctx.payloadLen plain < 2 ^ 32)
    (h : protectApdu C p ctx plain room = .ok bytes) :
    ∃ key start payload, ctx.authKey = some key ∧ ctx.start tag = .ok start ∧
      Protector.Protects C p ctx.policy (nonce ctx.systemTitle ctx.invocationCounter) key plain payload ∧
      payload.length = ctx.payloadLen plain ∧
      bytes = start.data ++
        (CipheredService.mk ctx.policy.control ctx.invocationCounter payload).encode.data := by
  unfold protectApdu at h
  rw [hp, if_neg Bool.false_ne_true, htag] at h
  dsimp only at h
  cases hkey : ctx.authKey with
  | none =>
    rw [hkey] at h
    cases h
  | some key =>
    rw [hkey] at h
    obtain ⟨header, hheader, h⟩ := Result.bind_ok.mp h
    split at h
    · cases h
    · obtain ⟨payload, hpay, h⟩ := Result.bind_ok.mp h
      split at h
      · cases h
      · obtain rfl := Except.ok.inj h
        have hprotects := Protector.protectAs_ok hp hpay
        have hlen : payload.length = ctx.payloadLen plain := hprotects.length
        obtain ⟨start, hstart, rfl⟩ := Outgoing.header_data hheader
        refine ⟨key, start, payload, rfl, hstart, hprotects, hlen, ?_⟩
        have hbody := CipheredService.length_body ⟨ctx.policy.control, ctx.invocationCounter, payload⟩
        rw [CipheredService.encode_data (by change 5 + payload.length < _; omega), Emit.lengthPrefixed,
          Emit.append_data (Emit.length_sized (by rw [hbody]; change 5 + payload.length < _; omega)).fault,
          Emit.bytes_data, hbody]
        simp [CipheredService.body, hlen]

/-- To a receiver under the same policy, what was protected is a body with the counter and the payload
of the sender. -/
theorem protectApdu_wrapped {room : Nat} (hp : ctx.policy.isNone = false)
    (htag : plain.head?.bind ApduTag.fromU8 = some tag) (hsize : 5 + ctx.payloadLen plain < 2 ^ 32)
    (h : protectApdu C p ctx plain room = .ok bytes) (localTitle : Option SystemTitle)
    (plainAllowed : List ApduTag) : ∃ key w, ctx.authKey = some key ∧
      w.ciphered.securityControl = ctx.policy.control ∧
      w.ciphered.invocationCounter = ctx.invocationCounter ∧
      w.ciphered.payload.length = ctx.payloadLen plain ∧
      Protector.Protects C p ctx.policy (nonce ctx.systemTitle ctx.invocationCounter) key plain
        w.ciphered.payload ∧
      (∀ t, w.expectTag = some t → plain.head? = some t.asU8) ∧
      ∀ s, unprotectApdu C q (ctx.received localTitle plainAllowed) bytes s =
        openWrapped C q (ctx.received localTitle plainAllowed) w s := by
  obtain ⟨key, start, payload, hkey, hstart, hprotects, hlen, rfl⟩ :=
    protectApdu_protects hp htag hsize h
  have hopens : ∃ w : Wrapped, w.ciphered = ⟨ctx.policy.control, ctx.invocationCounter, payload⟩ ∧
      (∀ t, w.expectTag = some t → t = tag) ∧
      ∀ s, unprotectApdu C q (ctx.received localTitle plainAllowed) (start.data ++
          (CipheredService.mk ctx.policy.control ctx.invocationCounter payload).encode.data) s =
        openWrapped C q (ctx.received localTitle plainAllowed) w s :=
    unprotectApdu_start hstart rfl rfl (by change 5 + payload.length < _; omega)
  obtain ⟨w, hw, hexpect, hrun⟩ := hopens
  refine ⟨key, w, hkey, by rw [hw], by rw [hw], by rw [hw, ← hlen], by rw [hw]; exact hprotects, ?_, hrun⟩
  rintro t ht
  obtain rfl := hexpect t ht
  obtain ⟨b, hb, htb⟩ := Option.bind_eq_some_iff.mp htag
  rw [hb, ApduTag.asU8_of_fromU8 htb]

/-- A receiver under the same policy and keys opens what was protected, where its window takes the
counter and there is room. -/
theorem protectApdu_opens {room : Nat} (hp : ctx.policy.isNone = false)
    (hi : C.Inverts p.provider q.provider ctx.policy.keyUsage ctx.policy.suite)
    (htag : plain.head?.bind ApduTag.fromU8 = some tag) (hsize : 5 + ctx.payloadLen plain < 2 ^ 32)
    (h : protectApdu C p ctx plain room = .ok bytes) (localTitle : Option SystemTitle)
    (plainAllowed : List ApduTag) {s : OpenState}
    (hfresh : s.replay.check ctx.invocationCounter = .ok ())
    (hroom : ctx.payloadLen plain ≤ s.buf.length) :
    ∃ t, unprotectApdu C q (ctx.received localTitle plainAllowed) bytes s =
        (.ok ⟨plain, some ctx.frame⟩, t) ∧ t.replay = s.replay.record ctx.invocationCounter := by
  obtain ⟨key, w, hkey, hcontrol, hcounter, hlen, hprotects, hhead, hrun⟩ :=
    protectApdu_wrapped (q := q) hp htag hsize h localTitle plainAllowed
  rw [hrun]
  have hall : ∃ t, openWrapped C q (ctx.received localTitle plainAllowed) w s =
      (.ok ⟨plain, some ⟨ctx.policy, ctx.policy.control, ctx.systemTitle,
        w.ciphered.invocationCounter⟩⟩, t) ∧
      t.replay = s.replay.record w.ciphered.invocationCounter :=
    openWrapped_protects hi hp rfl rfl hkey hcontrol (by rw [hcounter]; exact hprotects) hhead
      (by rw [hcounter]; exact hfresh) (by rw [hlen]; exact hroom)
  rw [hcounter] at hall
  exact hall

/-- Where its buffer is too short the receiver refuses it. -/
theorem protectApdu_overflows {room : Nat} (hp : ctx.policy.isNone = false)
    (htag : plain.head?.bind ApduTag.fromU8 = some tag) (hsize : 5 + ctx.payloadLen plain < 2 ^ 32)
    (h : protectApdu C p ctx plain room = .ok bytes) (localTitle : Option SystemTitle)
    (plainAllowed : List ApduTag) {s : OpenState} (hroom : s.buf.length < ctx.payloadLen plain) :
    ∃ e t, unprotectApdu C q (ctx.received localTitle plainAllowed) bytes s = (.error e, t) := by
  obtain ⟨-, w, -, -, -, hlen, -, -, hrun⟩ :=
    protectApdu_wrapped (q := q) hp htag hsize h localTitle plainAllowed
  rw [hrun]
  exact openWrapped_overflows (by rw [hlen]; exact hroom)

/-- Where its window does not take the counter the receiver refuses it, and nothing changes. -/
theorem protectApdu_stale {room : Nat} (hp : ctx.policy.isNone = false)
    (htag : plain.head?.bind ApduTag.fromU8 = some tag) (hsize : 5 + ctx.payloadLen plain < 2 ^ 32)
    (h : protectApdu C p ctx plain room = .ok bytes) (localTitle : Option SystemTitle)
    (plainAllowed : List ApduTag) {s : OpenState} {e : Error}
    (hstale : s.replay.check ctx.invocationCounter = .error e) :
    unprotectApdu C q (ctx.received localTitle plainAllowed) bytes s = (.error e, s) := by
  obtain ⟨-, w, -, -, hcounter, -, -, -, hrun⟩ :=
    protectApdu_wrapped (q := q) hp htag hsize h localTitle plainAllowed
  rw [hrun]
  exact openWrapped_stale rfl (by rw [hcounter]; exact hstale)

/-- Every message is protected, where there is a wrapper, the keys are there, and there is room. -/
theorem protectApdu_fits {key : Bytes} {room : Nat} (hp : ctx.policy.isNone = false)
    (htag : plain.head?.bind ApduTag.fromU8 = some tag) (hsize : 5 + ctx.payloadLen plain < 2 ^ 32)
    (hagreed : ctx.Agreed tag) (hkey : ctx.authKey = some key) (hs : C.Seals p.provider ctx.policy key)
    (hroom : ctx.wrapped tag plain.length ≤ room) :
    ∃ bytes, protectApdu C p ctx plain room = .ok bytes := by
  obtain ⟨header, hh, hlen⟩ := Outgoing.header_sized hagreed hsize
  have hwrap : ctx.wrapped tag plain.length = ctx.startSize tag +
      (Emit.lengthSize (5 + ctx.payloadLen plain) + (5 + ctx.payloadLen plain)) := rfl
  obtain ⟨payload, hprot, hpay⟩ := p.protectAs_total C ctx.systemTitle ctx.invocationCounter plain
    (room - header.length) hs hp (by change ctx.payloadLen plain ≤ _; omega)
  refine ⟨header ++ payload, ?_⟩
  unfold protectApdu
  rw [hp, if_neg Bool.false_ne_true, htag, hkey]
  dsimp only
  rw [hh, Result.bind_ok]
  refine ⟨header, rfl, ?_⟩
  rw [if_neg (by omega), Result.bind_ok]
  exact ⟨payload, hprot, by rw [if_neg (by rw [hpay]; simp [Outgoing.payloadLen])]; rfl⟩

/-- What is protected comes back. Where an APDU was protected, its header ends in the length of the
body behind it, and a receiver under the same policy and keys, whose window takes the counter, gives
exactly the plain APDU, whatever else it knows. And every plain APDU is protected, where its tag has a
ciphered form or general wrappers were agreed to, the keys are there, and there is room. -/
theorem unprotectApdu_protectApdu (C : CryptoProvider π) (p q : Protector π) (ctx : Outgoing)
    (hp : ctx.policy.isNone = false)
    (hi : C.Inverts p.provider q.provider ctx.policy.keyUsage ctx.policy.suite) (plain : Bytes)
    (tag : ApduTag) (htag : plain.head?.bind ApduTag.fromU8 = some tag)
    (hsize : 5 + ctx.payloadLen plain < 2 ^ 32) :
    (∀ room bytes, protectApdu C p ctx plain room = .ok bytes →
      bytes.length = ctx.wrapped tag plain.length ∧
      (∃ start body, bytes = start ++ (Emit.length body.length).data ++ body ∧
        body.length = 5 + ctx.payloadLen plain) ∧
      ∀ localTitle plainAllowed (s : OpenState), s.replay.check ctx.invocationCounter = .ok () →
        ctx.payloadLen plain ≤ s.buf.length →
        ∃ t, unprotectApdu C q (ctx.received localTitle plainAllowed) bytes s =
            (.ok ⟨plain, some ctx.frame⟩, t) ∧ t.replay = s.replay.record ctx.invocationCounter) ∧
    (ctx.Agreed tag → ∀ key, ctx.authKey = some key → C.Seals p.provider ctx.policy key →
      ∀ room, ctx.wrapped tag plain.length ≤ room →
        ∃ bytes, protectApdu C p ctx plain room = .ok bytes) := by
  refine ⟨fun room bytes h => ?_, fun hagreed key hkey hs room hroom =>
    protectApdu_fits hp htag hsize hagreed hkey hs hroom⟩
  obtain ⟨key, start, payload, -, hstart, -, hlen, hbytes⟩ := protectApdu_protects hp htag hsize h
  let c : CipheredService := ⟨ctx.policy.control, ctx.invocationCounter, payload⟩
  have hbody : c.body.length = 5 + ctx.payloadLen plain := by
    rw [c.length_body]
    change 5 + payload.length = _
    omega
  have hencode : bytes = start.data ++ (Emit.length c.body.length).data ++ c.body := by
    rw [hbytes, CipheredService.encode_data (by change 5 + payload.length < _; omega),
      Emit.lengthPrefixed, Emit.append_data (Emit.length_sized (by rw [hbody]; exact hsize)).fault,
      Emit.bytes_data, List.append_assoc]
  refine ⟨?_, ⟨start.data, c.body, hencode, hbody⟩, fun localTitle plainAllowed s hfresh hroom =>
    protectApdu_opens hp hi htag hsize h localTitle plainAllowed hfresh hroom⟩
  have hone := (Emit.length_sized hsize).size
  rw [hencode, List.length_append, List.length_append, Outgoing.start_length hstart, hbody]
  unfold Outgoing.wrapped Outgoing.payloadLen
  unfold Emit.size Outgoing.payloadLen at hone
  dsimp only
  rw [hone]
  omega

end Inverse

/-- Keys under which the cipher of the sample provider is its own inverse. -/
def SampleKeys.involutive : SampleKeys := ⟨0x80, some [1], none⟩

theorem sampleProvider_inverts (suite : SecuritySuite) {k : SampleKeys} (hk : k.global = 0x80) :
    sampleProvider.Inverts k k .globalUnicastEncryption suite where
  opens nonce aad buf tag out h := by
    have hopen := sampleProvider_open_seal (congrArg Prod.fst h)
    rwa [h] at hopen
  counterMode nonce buf tag out h := by
    obtain ⟨-, rfl⟩ := Prod.mk.inj h
    refine ⟨_, Prod.ext rfl ?_⟩
    have hinv : ((· + k.global) ∘ (· + k.global) : UInt8 → UInt8) = id := by
      funext b
      rw [hk]
      exact (UInt8.add_assoc b 0x80 0x80).trans (UInt8.add_zero b)
    exact (List.map_map ..).trans (by rw [hinv, List.map_id])
  mac _ _ := rfl

theorem unprotectApdu_protectApdu_sample :
    let p : Protector SampleKeys := ⟨.involutive, .none⟩
    let s : OpenState := ⟨.strict, zeros 32⟩
    ∃ bytes t, protectApdu sampleProvider p sampleOutgoing samplePlain 64 = .ok bytes ∧
      unprotectApdu sampleProvider p (sampleOutgoing.received none []) bytes s =
        (.ok ⟨samplePlain, some sampleOutgoing.frame⟩, t) := by
  obtain ⟨bytes, hbytes⟩ : ∃ bytes, protectApdu sampleProvider ⟨.involutive, .none⟩ sampleOutgoing
      samplePlain 64 = .ok bytes := ⟨_, rfl⟩
  obtain ⟨-, -, hopen⟩ := (unprotectApdu_protectApdu sampleProvider ⟨.involutive, .none⟩
    ⟨.involutive, .none⟩ sampleOutgoing rfl (sampleProvider_inverts .suite0 rfl) samplePlain .getRequest rfl
    (by decide)).1 64 bytes hbytes
  obtain ⟨t, ht, -⟩ := hopen none [] ⟨.strict, zeros 32⟩ rfl (by decide)
  exact ⟨bytes, t, hbytes, ht⟩

end Dlms
