import DlmsCosem.Security.Sealing

/-!
# What one end sends the other opens

`Channel` is what two ends keep to between messages, in one direction: one policy, keys that invert one
another, a sender that is known, and a window that has taken nothing above the last number sent. A
message keeps it, whether the receiver has room for it or not (`Channel.receives`). The user information
of a handshake is protected on its own, and `Info` says how.
-/

namespace Dlms

namespace ReplayWindow

/-- Nothing above `last` was taken. -/
def UpTo (w : ReplayWindow) (last : UInt32) : Prop :=
  ∀ top, w.highest = some top → top.toNat ≤ last.toNat

variable {w : ReplayWindow} {last c : UInt32}

theorem new_upTo (width last : UInt32) : (new width).UpTo last := nofun

theorem UpTo.mono (h : w.UpTo last) (hle : last.toNat ≤ c.toNat) : w.UpTo c :=
  fun top htop => (h top htop).trans hle

theorem UpTo.check (h : w.UpTo last) (hlt : last.toNat < c.toNat) : w.check c = .ok () := by
  by_contra hno
  obtain ⟨top, htop, hle, -⟩ := check_ne_ok_iff.mp hno
  have := h top htop
  omega

theorem UpTo.record (h : w.UpTo last) (hlt : last.toNat < c.toNat) : (w.record c).UpTo c := by
  intro top htop
  cases hh : w.highest with
  | none =>
    unfold ReplayWindow.record at htop
    rw [hh] at htop
    rw [Option.some.inj htop]
  | some m =>
    have hm := h m hh
    have habove : c > m := UInt32.lt_iff_toNat_lt.mpr (by omega)
    obtain ⟨htop', -, -⟩ := record_above hh habove 0
    rw [Option.some.inj (htop'.symm.trans htop)]

end ReplayWindow

variable {π : Type} {C : CryptoProvider π}

/-! ## Without protection -/

/-- An APDU that may come plain has no wrapper. -/
theorem Incoming.takes_bare {ctx : Incoming} {tag : ApduTag} (hbare : tag.bare)
    (hallow : ctx.policy.isNone = true ∨ tag ∈ ctx.plainAllowed) :
    Takes (ctx.readWrapper tag) [tag.asU8] (none = ·) := by
  obtain ⟨h1, h2, h3, h4, hun⟩ := hbare
  have hall : Takes (do
      Read.skip 1
      if !ctx.policy.isNone && !ctx.plainAllowed.contains tag then
        Prog.throw ⟨.unexpectedMessage, 0⟩
      else
        return none : Read (Option Wrapped)) ([tag.asU8] ++ []) (none = ·) := by
    refine (Takes.skip_one _).bind fun _ _ => ?_
    have hcond : ¬ (!ctx.policy.isNone && !ctx.plainAllowed.contains tag) = true := by
      obtain hnone | hmem := hallow
      · simp [hnone]
      · simp [hmem]
    rw [if_neg hcond]
    exact .pure rfl
  have hread (r : Reader) : ctx.readWrapper tag r = (do
      Read.skip 1
      if !ctx.policy.isNone && !ctx.plainAllowed.contains tag then
        Prog.throw ⟨.unexpectedMessage, 0⟩
      else
        return none : Read (Option Wrapped)) r := by
    unfold readWrapper
    cases tag <;> first | contradiction | rfl
  intro r tail hr
  rw [hread]
  exact hall r tail hr

/-- An APDU that may come plain is taken as it is, where there is room. -/
theorem unprotectApdu_bare {q : Protector π} {ctx : Incoming} {tag : ApduTag} {apdu : Bytes}
    (htag : apdu.head? = some tag.asU8) (hbare : tag.bare)
    (hallow : ctx.policy.isNone = true ∨ tag ∈ ctx.plainAllowed) (s : OpenState) :
    (s.buf.length < apdu.length ∧ ∃ e, unprotectApdu C q ctx apdu s = (.error e, s)) ∨
      apdu.length ≤ s.buf.length ∧ ∃ t, unprotectApdu C q ctx apdu s = (.ok ⟨apdu, none⟩, t) ∧
        t.replay = s.replay := by
  obtain ⟨tail, rfl⟩ : ∃ tail, apdu = tag.asU8 :: tail := by
    obtain ⟨tail, h⟩ := List.head?_eq_some_iff.mp htag
    exact ⟨tail, h⟩
  obtain ⟨_, r, hr, rfl, -⟩ := Incoming.takes_bare hbare hallow (Reader.new (tag.asU8 :: tail)) tail rfl
  have hrun : unprotectApdu C q ctx (tag.asU8 :: tail) s = (copyIn (tag.asU8 :: tail) >>= fun _ =>
      pure ⟨tag.asU8 :: tail, none⟩) s := by
    unfold unprotectApdu
    rw [List.headD_cons, ApduTag.fromU8_asU8]
    dsimp only
    rw [hr, Prog.ofExcept_ok, Prog.pure_bind_run]
  rw [hrun]
  by_cases hroom : s.buf.length < (tag.asU8 :: tail).length
  · have hcopy : copyIn (tag.asU8 :: tail) s =
        (.error ⟨.bufferTooSmall (tag.asU8 :: tail).length, 0⟩, s) := if_pos hroom
    exact .inl ⟨hroom, _, Prog.bind_run_error hcopy⟩
  · have hcopy : copyIn (tag.asU8 :: tail) s = (.ok (), { s with
        buf := (tag.asU8 :: tail) ++ s.buf.drop (tag.asU8 :: tail).length }) := if_neg hroom
    exact .inr ⟨by omega, _, Prog.bind_run_ok hcopy, rfl⟩

/-! ## Messages of an association -/

/-- How long the payload of a message is under the protection of `p`. -/
def Protector.payloadLen (p : Protector π) (plain : Bytes) : Nat :=
  plain.length + if p.policy.authenticated then SecuritySuite.tagLen else 0

/-- What `p` protects under the title `own`, with numbers above `last`, `q` opens behind `w`. -/
structure Channel (C : CryptoProvider π) (p q : Protector π) (own peer : Option SystemTitle)
    (last : UInt32) (w : ReplayWindow) : Prop where
  policy : q.policy = p.policy
  authKey : C.authenticationKey q.provider = C.authenticationKey p.provider
  inverts : C.Inverts p.provider q.provider p.policy.keyUsage p.policy.suite
  known : ∀ title, own = some title → peer = some title
  upTo : w.UpTo last

/-- `bytes` is `plain` under the protection of `p`, with the number `value`. -/
def Protector.Sends (C : CryptoProvider π) (p : Protector π) (own : Option SystemTitle) (value : UInt32)
    (plain bytes : Bytes) : Prop :=
  ∃ (ctx : Outgoing) (room : Nat), own = some ctx.systemTitle ∧ ctx.invocationCounter = value ∧
    ctx.authKey = C.authenticationKey p.provider ∧ ctx.policy = p.policy ∧
    protectApdu C p ctx plain room = .ok bytes

/-- A protected message starts with a tag that the plain one has not. -/
theorem Protector.Sends.payload_le {p : Protector π} {own : Option SystemTitle} {value : UInt32}
    {plain bytes : Bytes} (hp : p.policy.isNone = false) (h : p.Sends C own value plain bytes) :
    p.payloadLen plain ≤ bytes.length := by
  obtain ⟨ctx, room, -, -, -, hpolicy, h⟩ := h
  have hlen : ctx.payloadLen plain = p.payloadLen plain := by
    unfold Outgoing.payloadLen Protector.payloadLen
    rw [hpolicy]
  unfold protectApdu at h
  rw [hpolicy, hp, if_neg Bool.false_ne_true] at h
  split at h
  · cases h
  · split at h
    · cases h
    · obtain ⟨header, -, h⟩ := Result.bind_ok.mp h
      split at h
      · cases h
      · obtain ⟨payload, -, h⟩ := Result.bind_ok.mp h
        split at h
        · cases h
        · rename_i hpay
          rw [← Except.ok.inj h, List.length_append]
          omega

/-- The tag of what was sent under protection. -/
theorem Protector.Sends.tagged {p : Protector π} {own : Option SystemTitle} {value : UInt32}
    {plain bytes : Bytes} (hp : p.policy.isNone = false) (h : p.Sends C own value plain bytes) :
    ∃ tag, plain.head?.bind ApduTag.fromU8 = some tag := by
  obtain ⟨ctx, room, -, -, -, hpolicy, h⟩ := h
  cases ht : plain.head?.bind ApduTag.fromU8 with
  | some tag => exact ⟨tag, rfl⟩
  | none =>
    unfold protectApdu at h
    rw [hpolicy, hp, if_neg Bool.false_ne_true, ht] at h
    cases h

/-- What `p` protects under the title `own`, `q` opens as what its peer sent. -/
structure Protector.OpenedBy (C : CryptoProvider π) (p q : Protector π) (own peer : Option SystemTitle) :
    Prop where
  policy : q.policy = p.policy
  authKey : C.authenticationKey q.provider = C.authenticationKey p.provider
  inverts : C.Inverts p.provider q.provider p.policy.keyUsage p.policy.suite
  known : ∀ title, own = some title → peer = some title

namespace Protector.OpenedBy

variable {p q : Protector π} {own peer : Option SystemTitle} {value : UInt32} {plain bytes : Bytes}
  {ctx : Incoming} {s : OpenState}

/-- The receiver knows of a message what its sender does. -/
theorem received (h : p.OpenedBy C q own peer) {out : Outgoing} (hown : own = some out.systemTitle)
    (hkey' : out.authKey = C.authenticationKey p.provider) (hpolicy' : out.policy = p.policy)
    (hpeer : ctx.peer = peer) (hkey : ctx.authKey = C.authenticationKey q.provider)
    (hpolicy : ctx.policy = q.policy) : ctx = out.received ctx.localTitle ctx.plainAllowed := by
  obtain ⟨localTitle, peer', key', policy', plainAllowed⟩ := ctx
  obtain rfl : peer' = some out.systemTitle := hpeer.trans (h.known _ hown)
  obtain rfl : key' = out.authKey := hkey.trans (h.authKey.trans hkey'.symm)
  obtain rfl : policy' = out.policy := hpolicy.trans (h.policy.trans hpolicy'.symm)
  rfl

/-- What becomes of a message goes by the window, and then by the room. -/
theorem opens (h : p.OpenedBy C q own peer) (hp : p.policy.isNone = false)
    (hsends : p.Sends C own value plain bytes) (hsize : 5 + p.payloadLen plain < 2 ^ 32)
    (hpeer : ctx.peer = peer) (hkey : ctx.authKey = C.authenticationKey q.provider)
    (hpolicy : ctx.policy = q.policy) (s : OpenState) :
    (∀ e, s.replay.check value = .error e → unprotectApdu C q ctx bytes s = (.error e, s)) ∧
    (s.buf.length < p.payloadLen plain → ∃ e t, unprotectApdu C q ctx bytes s = (.error e, t)) ∧
    (s.replay.check value = .ok () → p.payloadLen plain ≤ s.buf.length → ∃ frame t,
      unprotectApdu C q ctx bytes s = (.ok ⟨plain, some frame⟩, t) ∧ t.replay = s.replay.record value) := by
  obtain ⟨tag, htag⟩ := hsends.tagged hp
  obtain ⟨out, room, hown, rfl, hkey', hpolicy', hprotect⟩ := hsends
  have hlen : out.payloadLen plain = p.payloadLen plain := by
    unfold Outgoing.payloadLen Protector.payloadLen
    rw [hpolicy']
  have hout : out.policy.isNone = false := by rw [hpolicy', hp]
  rw [h.received hown hkey' hpolicy' hpeer hkey hpolicy]
  rw [← hlen] at hsize ⊢
  refine ⟨fun e he => ?_, fun hover => ?_, fun hfresh hroom => ?_⟩
  · exact protectApdu_stale hout htag hsize hprotect _ _ he
  · exact protectApdu_overflows hout htag hsize hprotect _ _ hover
  · obtain ⟨t, hrun, hreplay⟩ := protectApdu_opens hout (by rw [hpolicy']; exact h.inverts) htag hsize
      hprotect ctx.localTitle ctx.plainAllowed hfresh hroom
    exact ⟨_, t, hrun, hreplay⟩

end Protector.OpenedBy

namespace Channel

variable {p q : Protector π} {own peer : Option SystemTitle} {last : UInt32} {w : ReplayWindow}

theorem mono (h : Channel C p q own peer last w) {last' : UInt32} (hle : last.toNat ≤ last'.toNat) :
    Channel C p q own peer last' w :=
  { h with upTo := h.upTo.mono hle }

theorem openedBy (h : Channel C p q own peer last w) : p.OpenedBy C q own peer :=
  ⟨h.policy, h.authKey, h.inverts, h.known⟩

/-- A message comes off at the receiver, where its buffer is long enough. -/
theorem receives (h : Channel C p q own peer last w) (hp : p.policy.isNone = false) {value : UInt32}
    {plain bytes : Bytes} (hsends : p.Sends C own value plain bytes) (hlt : last.toNat < value.toNat)
    (hsize : 5 + p.payloadLen plain < 2 ^ 32) {ctx : Incoming} (hpeer : ctx.peer = peer)
    (hkey : ctx.authKey = C.authenticationKey q.provider) (hpolicy : ctx.policy = q.policy) (size : Nat) :
    (size < p.payloadLen plain ∧
      ∃ e t, unprotectApdu C q ctx bytes ⟨w, zeros size⟩ = (.error e, t)) ∨
    p.payloadLen plain ≤ size ∧ ∃ frame t,
      unprotectApdu C q ctx bytes ⟨w, zeros size⟩ = (.ok ⟨plain, some frame⟩, t) ∧
        Channel C p q own peer value t.replay := by
  obtain ⟨-, hover, hopens⟩ :=
    h.openedBy.opens hp hsends hsize hpeer hkey hpolicy (⟨w, zeros size⟩ : OpenState)
  rw [length_zeros] at hover hopens
  by_cases hroom : p.payloadLen plain ≤ size
  · obtain ⟨frame, t, hrun, hreplay⟩ := hopens (h.upTo.check hlt) hroom
    refine .inr ⟨hroom, frame, t, hrun, { h with upTo := ?_ }⟩
    rw [hreplay]
    exact h.upTo.record hlt
  · exact .inl ⟨by omega, hover (by omega)⟩

end Channel

/-- What `p` sends of `plain`: a message under its policy, with a number above `last`, or where that is no
policy the plain APDU itself. -/
inductive Protector.Sent (C : CryptoProvider π) (p : Protector π) (own : Option SystemTitle)
    (last : UInt32) (plain : Bytes) : Bytes → UInt32 → Prop
  | bare : p.policy.isNone = true → Sent C p own last plain plain last
  | covered {bytes : Bytes} {value : UInt32} : p.policy.isNone = false → last.toNat < value.toNat →
    p.Sends C own value plain bytes → Sent C p own last plain bytes value

namespace Protector.Sent

variable {p q : Protector π} {own peer : Option SystemTitle} {last value : UInt32} {w : ReplayWindow}
  {plain bytes : Bytes}

theorem last_le (h : p.Sent C own last plain bytes value) : last.toNat ≤ value.toNat := by
  cases h with
  | bare => exact Nat.le_refl _
  | covered _ hlt => exact Nat.le_of_lt hlt

/-- What is sent comes off at the other end, where its buffer is long enough. -/
theorem received (h : p.Sent C own last plain bytes value)
    (hchannel : p.policy.isNone = false → Channel C p q own peer last w)
    (hq : q.policy.isNone = p.policy.isNone)
    (hbare : p.policy.isNone = true → ∃ tag : ApduTag, plain.head? = some tag.asU8 ∧ tag.bare)
    (hsize : 5 + p.payloadLen plain < 2 ^ 32) {ctx : Incoming} (hpeer : ctx.peer = peer)
    (hkey : ctx.authKey = C.authenticationKey q.provider) (hpolicy : ctx.policy = q.policy) (size : Nat) :
    (size < p.payloadLen plain ∧
      ∃ e t, unprotectApdu C q ctx bytes ⟨w, zeros size⟩ = (.error e, t)) ∨
    p.payloadLen plain ≤ size ∧ ∃ frame t,
      unprotectApdu C q ctx bytes ⟨w, zeros size⟩ = (.ok ⟨plain, frame⟩, t) ∧
        (p.policy.isNone = false → Channel C p q own peer value t.replay) := by
  cases h with
  | covered hp hlt hsends =>
    obtain ⟨hover, e, t, hrun⟩ | ⟨hroom, frame, t, hrun, ht⟩ :=
      (hchannel hp).receives hp hsends hlt hsize hpeer hkey hpolicy size
    · exact .inl ⟨hover, e, t, hrun⟩
    · exact .inr ⟨hroom, some frame, t, hrun, fun _ => ht⟩
  | bare hp =>
    have hlen : p.payloadLen plain = plain.length := by
      have hauth : p.policy.authenticated = false := by
        unfold SecurityPolicy.isNone at hp
        rw [Bool.and_eq_true, Bool.not_eq_true'] at hp
        exact hp.1
      unfold payloadLen
      rw [hauth, if_neg Bool.false_ne_true, Nat.add_zero]
    obtain ⟨tag, htag, hbare⟩ := hbare hp
    have hallow : ctx.policy.isNone = true := by rw [hpolicy, hq, hp]
    rw [hlen]
    obtain ⟨hover, e, hrun⟩ | ⟨hroom, t, hrun, -⟩ :=
      unprotectApdu_bare (C := C) (q := q) htag hbare (.inl hallow) ⟨w, zeros size⟩
    · rw [length_zeros] at hover
      exact .inl ⟨hover, e, _, hrun⟩
    · rw [length_zeros] at hroom
      refine .inr ⟨hroom, none, t, hrun, fun hno => ?_⟩
      rw [hp] at hno
      cases hno

end Protector.Sent

/-! ## The user information of a handshake -/

/-- The user information that holds `plain`, a message of the tag `tag`: bare, or under the global key
with the number `value`. -/
inductive Info (C : CryptoProvider π) (p : π) (policy : SecurityPolicy) (own : Option SystemTitle)
    (tag ciphered : ApduTag) (last : UInt32) (plain : Bytes) : Bytes → UInt32 → Prop
  | bare : policy.isNone = true → Info C p policy own tag ciphered last plain plain last
  | covered {title : SystemTitle} {key payload : Bytes} {value : UInt32} : policy.isNone = false →
    own = some title → C.authenticationKey p = some key → last.toNat < value.toNat →
    Protector.Protects C ⟨p, policy.global⟩ policy.global (nonce title value) key plain payload →
    Info C p policy own tag ciphered last plain
      (ciphered.asU8 :: (CipheredService.mk policy.control value payload).encode.data) value

theorem openWrapped_received {q : Protector π} {ctx : Incoming} {w : Wrapped} {s t : OpenState}
    {opened : Opened} (h : openWrapped C q ctx w s = (.ok opened, t)) :
    ctx.policy.checkReceived w.ciphered.securityControl = .ok () := by
  unfold openWrapped at h
  cases hpeer : ctx.peer with
  | none =>
    rw [hpeer] at h
    cases h
  | some peer =>
    rw [hpeer] at h
    dsimp only at h
    rw [Prog.gets_bind_run] at h
    obtain ⟨_, -, h⟩ := Prog.ofExcept_bind_ok h
    obtain ⟨_, s₁, -, h⟩ := Prog.bind_ok h
    cases hkey : ctx.authKey with
    | none =>
      rw [hkey] at h
      cases h
    | some key =>
      rw [hkey] at h
      obtain ⟨plain, s₂, hopen, -⟩ := Prog.bind_ok h
      exact q.unprotectAs_received C (congrArg Prod.fst hopen :)

namespace Info

variable {p : π} {q : Protector π} {policy : SecurityPolicy} {own : Option SystemTitle}
  {tag ciphered : ApduTag} {last value : UInt32} {plain info : Bytes}

theorem last_le (h : Info C p policy own tag ciphered last plain info value) :
    last.toNat ≤ value.toNat := by
  cases h with
  | bare => exact Nat.le_refl _
  | covered _ _ _ hlt => exact Nat.le_of_lt hlt

/-- Protected user information is opened as its body is. -/
theorem wrapped (h : Info C p policy own tag ciphered last plain info value)
    (hp : policy.isNone = false) (hun : ciphered.unprotect = some (.global, tag))
    (hsize : plain.length < 2 ^ 31) {ctx : Incoming} (hded : ctx.policy.dedicated = false) :
    ∃ title key w, own = some title ∧ C.authenticationKey p = some key ∧ last.toNat < value.toNat ∧
      w.ciphered.securityControl = policy.control ∧ w.ciphered.invocationCounter = value ∧
      w.expectTag = some tag ∧ w.ciphered.payload.length ≤ plain.length + SecuritySuite.tagLen ∧
      Protector.Protects C ⟨p, policy.global⟩ policy.global (nonce title value) key plain
        w.ciphered.payload ∧
      ∀ s, unprotectApdu C q ctx info s = openWrapped C q ctx w s := by
  cases h with
  | bare hnone =>
    rw [hp] at hnone
    cases hnone
  | @covered title key payload _ _ hown hkey hlt hprotects =>
    have hlen : payload.length ≤ plain.length + SecuritySuite.tagLen := by
      rw [hprotects.length]
      split <;> omega
    have hshort : 5 + payload.length < 2 ^ 32 := by
      unfold SecuritySuite.tagLen at hlen
      omega
    refine ⟨title, key, ⟨some tag, ⟨policy.control, value, payload⟩⟩, hown, hkey, hlt, rfl, rfl, rfl, hlen,
      hprotects, ?_⟩
    exact unprotectApdu_takes (Incoming.takes_service hun (by rw [hded]; rfl) hshort)

/-- Where it is opened its control byte says what the receiver demands. -/
theorem demands (h : Info C p policy own tag ciphered last plain info value)
    (hp : policy.isNone = false) (hun : ciphered.unprotect = some (.global, tag))
    (hsize : plain.length < 2 ^ 31) {ctx : Incoming} (hded : ctx.policy.dedicated = false)
    {s : OpenState} {opened : Opened} (hopen : (unprotectApdu C q ctx info s).1 = .ok opened) :
    ctx.policy.checkReceived policy.control = .ok () := by
  obtain ⟨-, -, w, -, -, -, hcontrol, -, -, -, -, hrun⟩ := h.wrapped (q := q) hp hun hsize hded
  rw [hrun] at hopen
  rw [← hcontrol]
  exact openWrapped_received (Prod.ext hopen rfl)

/-- What a receiver of protected user information has in common with the sender. -/
structure Shared (C : CryptoProvider π) (p : π) (q : Protector π) (policy : SecurityPolicy)
    (own : Option SystemTitle) (ctx : Incoming) : Prop where
  control : policy.control = policy.global.control
  agreed : ctx.policy = policy.global
  authKey : ctx.authKey = C.authenticationKey p
  known : ∀ title, own = some title → ctx.peer = some title
  inverts : C.Inverts p q.provider .globalUnicastEncryption policy.suite

/-- The user information comes off at a receiver with the same keys and policy. -/
theorem opens (h : Info C p policy own tag ciphered last plain info value)
    (hun : ciphered.unprotect = some (.global, tag)) (hbare : tag.bare)
    (htag : plain.head? = some tag.asU8) {ctx : Incoming} (hallow : tag ∈ ctx.plainAllowed)
    (hshared : policy.isNone = false → Shared C p q policy own ctx) {w : ReplayWindow}
    (hw : policy.isNone = false → w.UpTo last) {size : Nat}
    (hroom : plain.length + SecuritySuite.tagLen ≤ size) (hsize : size < 2 ^ 31) :
    ∃ frame t, unprotectApdu C q ctx info ⟨w, zeros size⟩ = (.ok ⟨plain, frame⟩, t) ∧
      (policy.isNone = false → t.replay.UpTo value) := by
  cases hnone : policy.isNone with
  | true =>
    cases h with
    | bare =>
      obtain ⟨hover, -⟩ | ⟨-, t, hrun, ht⟩ :=
        unprotectApdu_bare (C := C) (q := q) htag hbare (.inr hallow) ⟨w, zeros size⟩
      · rw [length_zeros] at hover
        omega
      · exact ⟨none, t, hrun, nofun⟩
    | covered hno =>
      rw [hnone] at hno
      cases hno
  | false =>
    obtain ⟨hcontrol, hpolicy, hkey, hknown, hinv⟩ := hshared hnone
    have hded : ctx.policy.dedicated = false := by
      rw [hpolicy]
      rfl
    obtain ⟨title, key, body, hown, hsome, hlt, hbody, rfl, hexpect, hlen, hprotects, hrun⟩ :=
      h.wrapped (q := q) hnone hun (by omega) hded
    have hglobal : policy.global.isNone = false := hnone
    have hopen := openWrapped_protects (p := ⟨p, policy.global⟩) (q := q) (s := ⟨w, zeros size⟩) hinv
      hglobal hpolicy (hknown title hown) (hkey.trans hsome)
      (hbody.trans hcontrol) hprotects
      (fun t ht => by rw [htag, ← Option.some.inj (hexpect.symm.trans ht)]) ((hw hnone).check hlt)
      (by rw [length_zeros]; omega)
    obtain ⟨t, hopen, ht⟩ := hopen
    refine ⟨_, t, (hrun _).trans hopen, fun _ => ?_⟩
    rw [ht]
    exact (hw hnone).record hlt

end Info

end Dlms
