import DlmsCosem.Security.Sample

/-!
# What an accepted message was checked for

An APDU that comes off its protection went through every check of its form: `Envelope` is what the
wrapper says outside the tag, `Envelope.Meets` that it names nobody and no key but those of the
context, and `Protector.Opens` what the provider answered for the payload. `unprotectApdu_accepted`
puts them together, and says for a refusal how far the message got: a window that moved has seen a
frame that verified.
-/

namespace Dlms

variable {π : Type} (C : CryptoProvider π)

/-! ## The payload -/

namespace Protector

variable (p : Protector π)

/-- The provider verified the tag at the end of the payload, under the key of the policy. -/
inductive Verified (policy : SecurityPolicy) (control : SecurityControl) (iv authKey : Bytes) :
    Bytes → Bytes → Prop
  /-- The body was encrypted. -/
  | sealed {suite : SecuritySuite} {body tag plain : Bytes} : control.encrypted = true →
    SecuritySuite.fromId control.suite = .ok suite → tag.length = SecuritySuite.tagLen →
    C.aeadOpen p.provider policy.keyUsage suite iv (control.val :: authKey) body tag = (.ok (), plain) →
    Verified policy control iv authKey (body ++ tag) plain
  /-- The body was in the clear. -/
  | signed {suite : SecuritySuite} {body tag : Bytes} : control.encrypted = false →
    SecuritySuite.fromId control.suite = .ok suite →
    C.gmac p.provider policy.keyUsage suite iv [[control.val], authKey, body] = .ok tag →
    Verified policy control iv authKey (body ++ tag) body

/-- The payload came off its protection, under the key of the policy. -/
inductive Opens (policy : SecurityPolicy) (control : SecurityControl) (iv authKey payload plain : Bytes) :
    Prop
  | verified : control.authenticated = true → p.Verified C policy control iv authKey payload plain →
    Opens policy control iv authKey payload plain
  /-- The message has no tag. -/
  | hidden {suite : SecuritySuite} {tag : Bytes} : control.authenticated = false →
    SecuritySuite.fromId control.suite = .ok suite →
    C.aeadSeal p.provider policy.keyUsage suite iv [] payload = (.ok tag, plain) →
    Opens policy control iv authKey payload plain

variable {C p} {policy : SecurityPolicy} {control : SecurityControl} {title : SystemTitle}
  {counter : UInt32} {authKey payload plain : Bytes}

/-- Where a message needs a tag, it was verified. -/
theorem Opens.authenticated {iv : Bytes} (h : p.Opens C policy control iv authKey payload plain)
    (ha : control.authenticated = true) : p.Verified C policy control iv authKey payload plain := by
  cases h with
  | verified _ hv => exact hv
  | hidden hno => exact absurd ha (Bool.eq_false_iff.mp hno)

theorem buildAad_ok {aad : Bytes} (h : buildAad control authKey = .ok aad) :
    aad = control.val :: authKey := by
  unfold buildAad at h
  split at h
  · cases h
  · exact (Except.ok.inj h).symm

/-- What comes off a payload under a policy that protects. The buffer then starts with it. -/
theorem unprotectAs_opens (hp : policy.isNone = false) {buf : Bytes}
    (h : p.unprotectAs C policy control title counter authKey payload = (.ok plain, buf)) :
    policy.checkReceived control = .ok () ∧
      p.Opens C policy control (nonce title counter) authKey payload plain ∧
      buf.take plain.length = plain := by
  have hcheck := p.unprotectAs_received C (congrArg Prod.fst h)
  refine ⟨hcheck, ?_⟩
  obtain ⟨-, -, -, hauth, henc⟩ := SecurityPolicy.checkReceived_ok hcheck hp
  unfold unprotectAs at h
  rw [hcheck, Prog.ofExcept_ok, Prog.pure_bind_run] at h
  obtain ⟨suite, hsuite, h⟩ := Prog.ofExcept_bind_ok h
  rw [Prog.gets_bind_run] at h
  have hplain : control.isPlain = false := by
    unfold SecurityPolicy.isNone at hp
    unfold SecurityControl.isPlain
    cases ha : policy.authenticated with
    | true => simp [hauth ha]
    | false =>
      rw [ha] at hp
      simp only [Bool.not_false, Bool.true_and, Bool.not_eq_false'] at hp
      simp [henc hp]
  dsimp only [id] at h
  rw [hplain, if_neg Bool.false_ne_true] at h
  by_cases ha : control.authenticated = true
  · rw [if_neg (by simp [ha])] at h
    split at h
    · cases h
    · rename_i hlen
      have hsplit : payload = payload.take (payload.length - SecuritySuite.tagLen) ++
          payload.drop (payload.length - SecuritySuite.tagLen) := (List.take_append_drop ..).symm
      have htag : (payload.drop (payload.length - SecuritySuite.tagLen)).length =
          SecuritySuite.tagLen := by
        rw [List.length_drop]
        omega
      by_cases he : control.encrypted = true
      · rw [if_pos he] at h
        obtain ⟨aad, haad, h⟩ := Prog.ofExcept_bind_ok h
        obtain rfl := buildAad_ok haad
        obtain ⟨_, s₃, hopen, h⟩ := Prog.bind_ok h
        unfold inPlace at hopen
        obtain ⟨hok, rfl⟩ := Prod.mk.inj hopen
        obtain ⟨hout, rfl⟩ := Prod.mk.inj h
        have hlen : (C.aeadOpen p.provider policy.keyUsage suite (nonce title counter)
            (control.val :: authKey) (payload.take (payload.length - SecuritySuite.tagLen))
            (payload.drop (payload.length - SecuritySuite.tagLen))).2.length =
              payload.length - SecuritySuite.tagLen := by
          rw [C.aeadOpen_buf, List.length_take]
          exact Nat.min_eq_left (Nat.sub_le ..)
        have hplain := (Except.ok.inj hout).symm
        rw [List.take_left' hlen] at hplain
        refine ⟨.verified ha ?_, ?_⟩
        · rw [hsplit]
          exact .sealed he hsuite htag (Prod.ext hok hplain.symm)
        · rw [hplain, List.take_left' rfl]
      · rw [if_neg he] at h
        obtain ⟨expected, hgmac, h⟩ := Prog.ofExcept_bind_ok h
        unfold gmacWith at hgmac
        obtain ⟨_, hsame, hgmac⟩ := Result.bind_ok.mp hgmac
        obtain rfl := Except.ok.inj (hsuite.symm.trans hsame)
        split at h
        · rename_i heq
          rw [constantTimeEq_iff] at heq
          obtain ⟨hout, rfl⟩ := Prod.mk.inj h
          have hplain := (Except.ok.inj hout).symm
          refine ⟨.verified ha ?_, ?_⟩
          · rw [hplain]
            nth_rewrite 1 [hsplit]
            exact .signed (Bool.eq_false_iff.mpr he) hsuite (hgmac.trans (by rw [heq]))
          · rw [hplain, List.length_take, Nat.min_eq_left (Nat.sub_le ..)]
        · cases h
  · have ha := Bool.eq_false_iff.mpr ha
    rw [if_pos (by simp [ha])] at h
    obtain ⟨tag, s₂, hseal, h⟩ := Prog.bind_ok h
    unfold inPlace at hseal
    rw [List.take_length, List.drop_length, List.append_nil] at hseal
    obtain ⟨hok, rfl⟩ := Prod.mk.inj hseal
    obtain ⟨hout, rfl⟩ := Prod.mk.inj h
    obtain rfl := Except.ok.inj hout
    exact ⟨.hidden ha hsuite (Prod.ext hok rfl), List.take_length⟩

end Protector

/-! ## The wrapper -/

/-- What the wrapper of a protected APDU says, outside the tag. -/
structure Envelope where
  sender : Option Bytes
  recipient : Option Bytes
  keyInfo : Option KeyInfo
  dedicated : Bool
  ciphered : CipheredService

/-- The forms that a protected APDU has behind its tag. -/
inductive Envelope.Wraps (r : Reader) : ApduTag → Envelope → Prop
  | general {tag : ApduTag} {g : GeneralGloCiphering} :
    tag = .generalGloCiphering ∨ tag = .generalDedCiphering → (GeneralGloCiphering.decode r).1 = .ok g →
    Wraps r tag ⟨some g.systemTitle, none, none, tag = .generalDedCiphering, g.ciphered⟩
  /-- An empty recipient names nobody. -/
  | named {g : GeneralCiphering} : (GeneralCiphering.decode r).1 = .ok g →
    Wraps r .generalCiphering ⟨some g.originatorSystemTitle,
      if g.recipientSystemTitle = [] then none else some g.recipientSystemTitle, g.keyInfo, false,
      g.ciphered⟩
  | service {tag plainTag : ApduTag} {protection : Protection} {c : CipheredService} :
    tag.unprotect = some (protection, plainTag) → (CipheredService.decode r).1 = .ok c →
    Wraps r tag ⟨none, none, none, protection = .dedicated, c⟩

/-- The wrapper names nobody and no key but those of the context. -/
structure Envelope.Meets (e : Envelope) (ctx : Incoming) (peer : SystemTitle) : Prop where
  sender : ∀ title, e.sender = some title → title = peer.bytes
  recipient : ∀ own, ctx.localTitle = some own → ∀ title, e.recipient = some title → title = own.bytes
  keyInfo : ∀ info, e.keyInfo = some info → ∃ id, info = .identified id ∧
    ctx.policy.keyUsage.keyId = some id
  dedicated : e.dedicated = ctx.policy.dedicated

/-- The tag is that of an APDU without protection. -/
def ApduTag.bare (tag : ApduTag) : Prop :=
  tag ≠ .generalGloCiphering ∧ tag ≠ .generalDedCiphering ∧ tag ≠ .generalCiphering ∧
    tag ≠ .generalSigning ∧ tag.unprotect = none

/-- The control byte says what the policy demands. -/
structure SecurityPolicy.Demands (policy : SecurityPolicy) (control : SecurityControl) : Prop where
  suite : control.suite = policy.suite.id
  authenticated : policy.authenticated = true → control.authenticated = true
  encrypted : policy.encrypted = true → control.encrypted = true
  broadcast : control.broadcastKey = policy.keySet.isBroadcast

namespace Incoming

variable {ctx : Incoming}

theorem checkPeer_ok {title : Bytes} (h : ctx.checkPeer title = .ok ()) {peer : SystemTitle}
    (hp : ctx.peer = some peer) : title = peer.bytes := by
  unfold checkPeer at h
  rw [hp] at h
  dsimp only at h
  split at h
  · cases h
  · rename_i heq
    simpa using heq

theorem checkRecipient_ok {title : Bytes} (h : ctx.checkRecipient title = .ok ()) {own : SystemTitle}
    (hown : ctx.localTitle = some own) (hne : title ≠ []) : title = own.bytes := by
  unfold checkRecipient at h
  rw [hown] at h
  dsimp only at h
  split at h
  · cases h
  · rename_i hnot
    by_contra hdiff
    exact hnot ⟨hne, hdiff⟩

theorem checkKeyInfo_ok {info : KeyInfo} (h : ctx.checkKeyInfo (some info) = .ok ()) :
    ∃ id, info = .identified id ∧ ctx.policy.keyUsage.keyId = some id := by
  cases info with
  | identified id =>
    unfold checkKeyInfo at h
    dsimp only at h
    split at h
    · rename_i heq
      exact ⟨id, rfl, heq.symm⟩
    · cases h
  | wrapped => cases h
  | agreed => cases h

theorem checkDedicated_ok {dedicated : Bool} (h : ctx.checkDedicated dedicated = .ok ()) :
    dedicated = ctx.policy.dedicated := by
  unfold checkDedicated at h
  split at h
  · cases h
  · rename_i heq
    simpa using heq

/-- What `readWrapper` gives was checked against the context. -/
theorem readWrapper_some {tag : ApduTag} {r r₁ r₂ : Reader} {w : Wrapped}
    (hskip : Read.skip 1 r = (.ok (), r₁)) (h : ctx.readWrapper tag r = (.ok (some w), r₂))
    {peer : SystemTitle} (hp : ctx.peer = some peer) :
    ∃ e : Envelope, e.Wraps r₁ tag ∧ e.Meets ctx peer ∧ e.ciphered = w.ciphered := by
  unfold readWrapper at h
  rw [Prog.bind_run_ok hskip] at h
  have general (htag : tag = .generalGloCiphering ∨ tag = .generalDedCiphering)
      (h : (do
        let g ← GeneralGloCiphering.decode
        Prog.ofExcept (ctx.checkPeer g.systemTitle)
        Prog.ofExcept (ctx.checkDedicated (tag = .generalDedCiphering))
        return some ⟨none, g.ciphered⟩ : Read (Option Wrapped)) r₁ = (.ok (some w), r₂)) :
      ∃ e : Envelope, e.Wraps r₁ tag ∧ e.Meets ctx peer ∧ e.ciphered = w.ciphered := by
    obtain ⟨g, r₃, hg, h⟩ := Prog.bind_ok h
    obtain ⟨_, hpeer, h⟩ := Prog.ofExcept_bind_ok h
    obtain ⟨_, hded, h⟩ := Prog.ofExcept_bind_ok h
    obtain rfl := Option.some.inj (Except.ok.inj (Prod.mk.inj h).1)
    refine ⟨_, .general htag (congrArg Prod.fst hg), ⟨?_, nofun, nofun, checkDedicated_ok hded⟩, rfl⟩
    rintro title htitle
    rw [← Option.some.inj htitle]
    exact checkPeer_ok hpeer hp
  split at h
  · exact general (.inl rfl) h
  · exact general (.inr rfl) h
  · obtain ⟨g, r₃, hg, h⟩ := Prog.bind_ok h
    obtain ⟨_, hpeer, h⟩ := Prog.ofExcept_bind_ok h
    obtain ⟨_, hrec, h⟩ := Prog.ofExcept_bind_ok h
    obtain ⟨_, hkey, h⟩ := Prog.ofExcept_bind_ok h
    obtain ⟨_, hded, h⟩ := Prog.ofExcept_bind_ok h
    obtain rfl := Option.some.inj (Except.ok.inj (Prod.mk.inj h).1)
    refine ⟨_, .named (congrArg Prod.fst hg), ⟨?_, ?_, ?_, checkDedicated_ok hded⟩, rfl⟩
    · rintro title htitle
      rw [← Option.some.inj htitle]
      exact checkPeer_ok hpeer hp
    · rintro own hown title htitle
      dsimp only at htitle
      split at htitle
      · cases htitle
      · rename_i hne
        rw [← Option.some.inj htitle]
        exact checkRecipient_ok hrec hown hne
    · rintro info hinfo
      dsimp only at hinfo
      rw [hinfo] at hkey
      exact checkKeyInfo_ok hkey
  · cases h
  · generalize hu : tag.unprotect = u at h
    cases u with
    | none =>
      dsimp only at h
      split at h <;> cases h
    | some u =>
      obtain ⟨_, hded, h⟩ := Prog.ofExcept_bind_ok h
      obtain ⟨c, r₃, hc, h⟩ := Prog.bind_ok h
      obtain rfl := Option.some.inj (Except.ok.inj (Prod.mk.inj h).1)
      exact ⟨_, .service hu (congrArg Prod.fst hc), ⟨nofun, nofun, nofun, checkDedicated_ok hded⟩, rfl⟩

/-- An APDU without a wrapper is bare. -/
theorem readWrapper_bare {tag : ApduTag} {r r' : Reader} (h : ctx.readWrapper tag r = (.ok none, r')) :
    tag.bare := by
  have wrapped {α : Type} {m : Read α} {f : α → Wrapped} {r : Reader}
      (h : (m >>= fun a => pure (some (f a))) r = (.ok none, r')) : False := by
    obtain ⟨a, r₂, -, h⟩ := Prog.bind_ok h
    cases h
  obtain ⟨_, r₁, -, h⟩ := Prog.bind_ok h
  split at h
  · obtain ⟨g, _, -, h⟩ := Prog.bind_ok h
    obtain ⟨_, _, h⟩ := Prog.ofExcept_bind_ok h
    obtain ⟨_, _, h⟩ := Prog.ofExcept_bind_ok h
    cases h
  · obtain ⟨g, _, -, h⟩ := Prog.bind_ok h
    obtain ⟨_, _, h⟩ := Prog.ofExcept_bind_ok h
    obtain ⟨_, _, h⟩ := Prog.ofExcept_bind_ok h
    cases h
  · obtain ⟨g, _, -, h⟩ := Prog.bind_ok h
    obtain ⟨_, _, h⟩ := Prog.ofExcept_bind_ok h
    obtain ⟨_, _, h⟩ := Prog.ofExcept_bind_ok h
    obtain ⟨_, _, h⟩ := Prog.ofExcept_bind_ok h
    obtain ⟨_, _, h⟩ := Prog.ofExcept_bind_ok h
    cases h
  · cases h
  · rename_i h1 h2 h3 h4
    generalize hu : tag.unprotect = u at h
    cases u with
    | none => exact ⟨h1, h2, h3, h4, hu⟩
    | some u =>
      obtain ⟨_, _, h⟩ := Prog.ofExcept_bind_ok h
      exact (wrapped h).elim

end Incoming

/-! ## The whole APDU -/

/-- The APDU is a frame of the peer that went through every check, and its counter is spent. -/
structure Taken (p : Protector π) (ctx : Incoming) (apdu : Bytes) (s : OpenState) (plain : Bytes)
    (t : OpenState) (tag : ApduTag) (e : Envelope) (peer : SystemTitle) (key : Bytes) : Prop where
  form : ApduTag.fromU8 (apdu.headD 0) = some tag
  wraps : e.Wraps (Read.skip 1 (Reader.new apdu)).2 tag
  known : ctx.peer = some peer
  keyed : ctx.authKey = some key
  meets : e.Meets ctx peer
  demands : ctx.policy.Demands e.ciphered.securityControl
  fresh : s.replay.check e.ciphered.invocationCounter = .ok ()
  opens : p.Opens C ctx.policy e.ciphered.securityControl
    (nonce peer e.ciphered.invocationCounter) key e.ciphered.payload plain
  verified : ctx.policy.authenticated = true → p.Verified C ctx.policy e.ciphered.securityControl
    (nonce peer e.ciphered.invocationCounter) key e.ciphered.payload plain
  window : t.replay = s.replay.record e.ciphered.invocationCounter
  spent : t.replay.Refuses e.ciphered.invocationCounter

/-- What an accepted APDU is: bare, of a kind that may come so, or a frame that was taken. -/
inductive Accepted (p : Protector π) (ctx : Incoming) (apdu : Bytes) (s : OpenState) (plain : Bytes)
    (t : OpenState) : Prop
  | bare (tag : ApduTag) : ApduTag.fromU8 (apdu.headD 0) = some tag → tag.bare →
    tag ∈ ctx.plainAllowed → plain = apdu → t.replay = s.replay → Accepted p ctx apdu s plain t
  | frame (tag : ApduTag) (e : Envelope) (peer : SystemTitle) (key : Bytes) :
    Taken C p ctx apdu s plain t tag e peer key → Accepted p ctx apdu s plain t

section Unprotect

variable {C} {p : Protector π} {ctx : Incoming}

theorem copyIn_ok {bytes : Bytes} {s t : OpenState} (h : copyIn bytes s = (.ok (), t)) :
    t.replay = s.replay ∧ ∃ rest, t.buf = bytes ++ rest := by
  unfold copyIn at h
  split at h
  · cases h
  · obtain ⟨-, rfl⟩ := Prod.mk.inj h
    exact ⟨rfl, _, rfl⟩

theorem openIn_ok {α : Type} {n : Nat} {m : Prog Error Bytes α} {s t : OpenState} {a : α}
    (h : openIn n m s = (.ok a, t)) :
    t.replay = s.replay ∧ ∃ front, m (s.buf.take n) = (.ok a, front) ∧ t.buf = front ++ s.buf.drop n := by
  obtain ⟨hok, rfl⟩ := Prod.mk.inj h
  exact ⟨rfl, _, Prod.ext hok rfl, rfl⟩

theorem acceptCounter_fresh {counter : UInt32} {s : OpenState} (h : s.replay.check counter = .ok ()) :
    acceptCounter counter s = (.ok (), { s with replay := s.replay.record counter }) := by
  unfold acceptCounter ReplayWindow.accept
  rw [h]
  rfl

/-- A body is refused before anything changes in the window, or it verified and its counter is
spent. -/
theorem openWrapped_taken (hp : ctx.policy.isNone = false) {tag : ApduTag} {apdu : Bytes}
    (htag : ApduTag.fromU8 (apdu.headD 0) = some tag) {w : Wrapped}
    (hw : ∀ peer, ctx.peer = some peer → ∃ e : Envelope,
      e.Wraps (Read.skip 1 (Reader.new apdu)).2 tag ∧ e.Meets ctx peer ∧ e.ciphered = w.ciphered)
    (s : OpenState) :
    let r := openWrapped C p ctx w s
    (∃ error, r.1 = .error error ∧ r.2.replay = s.replay) ∨
    ∃ plain e peer key, Taken C p ctx apdu s plain r.2 tag e peer key ∧
      ∀ opened, r.1 = .ok opened → opened.plain = plain := by
  unfold openWrapped
  cases hpeer : ctx.peer with
  | none => exact .inl ⟨_, rfl, rfl⟩
  | some peer =>
    dsimp only
    rw [Prog.gets_bind_run]
    cases hfresh : s.replay.check w.ciphered.invocationCounter with
    | error error => exact .inl ⟨error, rfl, rfl⟩
    | ok _ =>
      rw [Prog.ofExcept_ok, Prog.pure_bind_run]
      match hcopy : copyIn w.ciphered.payload s with
      | (.error error, s₁) =>
        rw [Prog.bind_run_error hcopy]
        have hsame := copyIn_replay w.ciphered.payload s
        rw [hcopy] at hsame
        exact .inl ⟨error, rfl, hsame⟩
      | (.ok _, s₁) =>
        rw [Prog.bind_run_ok hcopy]
        obtain ⟨hsame, rest, hbuf⟩ := copyIn_ok hcopy
        cases hkey : ctx.authKey with
        | none => exact .inl ⟨_, rfl, hsame⟩
        | some key =>
          dsimp only
          match hopen : openIn w.ciphered.payload.length (p.unprotectAs C ctx.policy
              w.ciphered.securityControl peer w.ciphered.invocationCounter key) s₁ with
          | (.error error, s₂) =>
            rw [Prog.bind_run_error hopen]
            have hkeep := openIn_replay w.ciphered.payload.length (p.unprotectAs C ctx.policy
              w.ciphered.securityControl peer w.ciphered.invocationCounter key) s₁
            rw [hopen] at hkeep
            exact .inl ⟨error, rfl, hkeep.trans hsame⟩
          | (.ok plain, s₂) =>
            rw [Prog.bind_run_ok hopen]
            obtain ⟨hkeep, front, hun, hfront⟩ := openIn_ok hopen
            rw [hbuf, List.take_left' rfl] at hun
            obtain ⟨hcheck, hopens, hplain⟩ := Protector.unprotectAs_opens hp hun
            obtain ⟨-, hbroadcast, hsuite, hauth, henc⟩ := SecurityPolicy.checkReceived_ok hcheck hp
            obtain ⟨e, hwraps, hmeets, hc⟩ := hw peer hpeer
            have hrep : s₂.replay = s.replay := hkeep.trans hsame
            rw [Prog.bind_run_ok (acceptCounter_fresh (hrep ▸ hfresh)), Prog.gets_bind_run, hrep]
            have htaken {t : OpenState} (ht : t.replay = s.replay.record w.ciphered.invocationCounter) :
                Taken C p ctx apdu s plain t tag e peer key := by
              rw [← hc] at hsuite hauth henc hbroadcast hopens hfresh ht
              exact ⟨htag, hwraps, hpeer, hkey, hmeets, ⟨hsuite, hauth, henc, hbroadcast⟩, hfresh, hopens,
                fun ha => hopens.authenticated (hauth ha), ht, ht ▸ ReplayWindow.record_refuses ..⟩
            split
            · exact .inr ⟨plain, e, peer, key, htaken rfl, nofun⟩
            · refine .inr ⟨plain, e, peer, key, htaken rfl, fun opened ho => ?_⟩
              rw [← Except.ok.inj ho]
              dsimp only
              have hle : plain.length ≤ front.length := by
                have := congrArg List.length hplain
                rw [List.length_take] at this
                omega
              rw [hfront, List.take_append_of_le_length hle]
              exact hplain

/-- Where an APDU may leave `unprotect_apdu` under a policy that protects. -/
inductive Inspected (C : CryptoProvider π) (p : Protector π) (ctx : Incoming) (apdu : Bytes) (s : OpenState) :
    Except Error Opened × OpenState → Prop
  | refused (e : Error) (t : OpenState) : t.replay = s.replay → Inspected C p ctx apdu s (.error e, t)
  | bare (tag : ApduTag) (t : OpenState) : ApduTag.fromU8 (apdu.headD 0) = some tag → tag.bare →
    tag ∈ ctx.plainAllowed → t.replay = s.replay → Inspected C p ctx apdu s (.ok ⟨apdu, none⟩, t)
  | frame (r : Except Error Opened) (t : OpenState) (plain : Bytes) (tag : ApduTag) (e : Envelope)
    (peer : SystemTitle) (key : Bytes) : Taken C p ctx apdu s plain t tag e peer key →
    (∀ opened, r = .ok opened → opened.plain = plain) → Inspected C p ctx apdu s (r, t)

theorem unprotectApdu_inspected (C : CryptoProvider π) (p : Protector π) (ctx : Incoming)
    (hp : ctx.policy.isNone = false) (apdu : Bytes) (s : OpenState) :
    Inspected C p ctx apdu s (unprotectApdu C p ctx apdu s) := by
  unfold unprotectApdu
  cases htag : ApduTag.fromU8 (apdu.headD 0) with
  | none => exact .refused _ _ rfl
  | some tag =>
    dsimp only
    match hread : ctx.readWrapper tag (Reader.new apdu) with
    | (.error error, r) => exact .refused _ _ rfl
    | (.ok none, r) =>
      rw [Prog.ofExcept_ok, Prog.pure_bind_run]
      dsimp only
      match hcopy : copyIn apdu s with
      | (.error error, s₁) =>
        rw [Prog.bind_run_error hcopy]
        have hsame := copyIn_replay apdu s
        rw [hcopy] at hsame
        exact .refused _ _ hsame
      | (.ok _, s₁) =>
        rw [Prog.bind_run_ok hcopy]
        obtain hnone | hmem := Incoming.readWrapper_none hread
        · rw [hnone] at hp
          cases hp
        · exact .bare tag _ htag (Incoming.readWrapper_bare hread) hmem (copyIn_ok hcopy).1
    | (.ok (some w), r) =>
      rw [Prog.ofExcept_ok, Prog.pure_bind_run]
      dsimp only
      obtain ⟨_, r₁, hskip, -⟩ := Prog.bind_ok hread
      have hw (peer : SystemTitle) (hpeer : ctx.peer = some peer) := Incoming.readWrapper_some hskip hread
        hpeer
      have hr₁ : (Read.skip 1 (Reader.new apdu)).2 = r₁ := by rw [hskip]
      rw [← hr₁] at hw
      obtain ⟨error, herr, hsame⟩ | ⟨plain, e, peer, key, htaken, hplain⟩ :=
        openWrapped_taken (C := C) (p := p) hp htag hw s
      · have hout : openWrapped C p ctx w s = (.error error, (openWrapped C p ctx w s).2) := Prod.ext herr rfl
        rw [hout]
        exact .refused _ _ hsame
      · exact .frame _ _ plain tag e peer key htaken hplain

/-- An APDU that `unprotect_apdu` accepts under a policy that protects is bare and of a kind that may
come so, or a frame of the peer that names nobody and no key but the association's, with a control
byte as strong as the policy, opened under the policy's key, and fresh; then its counter is spent. A
refusal leaves the window as it was, unless such a frame had verified before. -/
theorem unprotectApdu_accepted (C : CryptoProvider π) (p : Protector π) (ctx : Incoming)
    (hp : ctx.policy.isNone = false) (apdu : Bytes) (s : OpenState) :
    let r := unprotectApdu C p ctx apdu s
    (∀ opened, r.1 = .ok opened → Accepted C p ctx apdu s opened.plain r.2) ∧
    (∀ error, r.1 = .error error → r.2.replay = s.replay ∨
      ∃ plain tag e peer key, Taken C p ctx apdu s plain r.2 tag e peer key) := by
  have hs := unprotectApdu_inspected C p ctx hp apdu s
  generalize unprotectApdu C p ctx apdu s = out at hs ⊢
  cases hs with
  | refused e t hsame => exact ⟨nofun, fun _ _ => .inl hsame⟩
  | bare tag t htag hbare hmem hsame =>
    refine ⟨fun opened ho => ?_, nofun⟩
    rw [← Except.ok.inj ho]
    exact .bare tag htag hbare hmem rfl hsame
  | frame r t plain tag e peer key htaken hplain =>
    refine ⟨fun opened ho => ?_, fun _ _ => .inr ⟨plain, tag, e, peer, key, htaken⟩⟩
    rw [hplain opened ho]
    exact .frame tag e peer key htaken

end Unprotect

theorem unprotectApdu_accepted_sample :
    let p : Protector SampleKeys := ⟨.authenticating, .none⟩
    let s : OpenState := ⟨.strict, zeros 32⟩
    let r := unprotectApdu sampleProvider p sampleIncoming sampleFrame s
    samplePolicy.isNone = false ∧ Accepted sampleProvider p sampleIncoming sampleFrame s samplePlain r.2 :=
  ⟨rfl, (unprotectApdu_accepted sampleProvider ⟨.authenticating, .none⟩ sampleIncoming rfl sampleFrame
    ⟨.strict, zeros 32⟩).1 ⟨samplePlain, some ⟨samplePolicy, ⟨0x30⟩, sampleTitle, 5⟩⟩ (by decide +kernel)⟩

end Dlms
