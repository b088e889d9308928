import DlmsCosem.Ends.Handshake
import DlmsCosem.Xdlms.RestoredServices

/-!
# Associations

The AARQ of a client goes to a server, and its answer back. Where neither fails they agree on whether
there is an association, and are linked if there is one (`handshake_links`): each has the title and the
policy of the other, the same keys are in force, the terms are the same on both sides, and nothing that was
counted in the handshake is in the way of what follows.
-/

namespace Dlms

open Ber

variable {σ π : Type} {N M : Nat} {C : CryptoProvider π} {S : ObjectStore σ}

/-! ## Two ends that may associate -/

theorem SystemTitle.fromSlice_bytes (title : SystemTitle) : fromSlice title.bytes = .ok title :=
  dif_pos title.length_eq

/-- Two ends that find what each sends protected as they demand protect alike. -/
theorem SecurityPolicy.agree {p q : SecurityPolicy} (hp : p.isNone = false) (hq : q.isNone = false)
    (hq' : q.global.checkReceived p.control = .ok ()) (hp' : p.global.checkReceived q.control = .ok ()) :
    q.global = p.global ∧ p.control = p.global.control ∧ q.control = q.global.control := by
  have hunicast (a : SecurityPolicy) (ha : a.control.broadcastKey = false) : a.control = a.global.control := by
    obtain ⟨suite, x, y, k⟩ := a
    cases k with
    | globalBroadcast => cases suite <;> cases x <;> cases y <;> cases ha
    | globalUnicast | dedicated => rfl
  obtain ⟨-, hbp, hsuite, hauth, henc⟩ := checkReceived_ok hq' hq
  obtain ⟨-, hbq, -, hauth', henc'⟩ := checkReceived_ok hp' hp
  refine ⟨?_, hunicast p hbp, hunicast q hbq⟩
  have hs : q.suite = p.suite := by
    rw [p.control_suite] at hsuite
    have := congrArg SecuritySuite.fromId hsuite
    rw [SecuritySuite.fromId_id, SecuritySuite.fromId_id] at this
    exact (Except.ok.inj this).symm
  have ha : q.authenticated = p.authenticated := by
    rw [p.control_bits.1] at hauth
    rw [q.control_bits.1] at hauth'
    exact Bool.eq_iff_iff.mpr ⟨hauth, hauth'⟩
  have he : q.encrypted = p.encrypted := by
    rw [p.control_bits.2] at henc
    rw [q.control_bits.2] at henc'
    exact Bool.eq_iff_iff.mpr ⟨henc, henc'⟩
  unfold global
  rw [hs, ha, he]

/-- Two providers hold the same keys for a use. -/
structure Keyed (C : CryptoProvider π) (p q : π) (usage : KeyUsage) (suite : SecuritySuite) : Prop where
  authKey : C.authenticationKey q = C.authenticationKey p
  requests : C.Inverts p q usage suite
  answers : C.Inverts q p usage suite

/-- A client and a server that may associate: no association is open under a policy of its own, they hold the
same keys, before and after the client hands over its dedicated one, and neither has counted what the other
has not sent. -/
structure Ready (C : CryptoProvider π) (c : ClientSession π N) (s : Server σ π M) : Prop where
  client : c.protector.policy = c.config.security.global ∨
    c.protector.policy = c.config.security ∧ c.config.security.dedicated = true
  server : s.protector.policy.global = s.config.security.global
  mechanism : .fromArc c.config.mechanism.arc = c.config.mechanism
  keyed : c.config.security.isNone = false → Keyed C c.protector.provider
    (C.clearDedicatedKey s.protector.provider) .globalUnicastEncryption c.config.security.suite
  rekeyed : c.config.security.isNone = false → ∀ b k q, C.dedicatedKey c.protector.provider = some b →
    Key.fromSlice b = .ok k → C.setDedicatedKey (C.clearDedicatedKey s.protector.provider) k = (.ok (), q) →
    Keyed C c.protector.provider q .globalUnicastEncryption c.config.security.suite ∧
      Keyed C c.protector.provider q .dedicated c.config.security.suite
  requests : ∀ title, c.config.systemTitle = some title → s.replayOwner = some title →
    s.peerReplay.UpTo c.invocationCounter.last
  answers : c.peerReplay.UpTo s.invocationCounter.last

/-- Two ends that are new, with the same keys. -/
theorem Ready.new {config : ClientConfig} {served : ServerConfig} {store : σ} {p q : π}
    (hmechanism : .fromArc config.mechanism.arc = config.mechanism)
    (hkeyed : Keyed C p (C.clearDedicatedKey q) .globalUnicastEncryption config.security.suite)
    (hrekeyed : ∀ b k q', C.dedicatedKey p = some b → Key.fromSlice b = .ok k →
      C.setDedicatedKey (C.clearDedicatedKey q) k = (.ok (), q') →
      Keyed C p q' .globalUnicastEncryption config.security.suite ∧
        Keyed C p q' .dedicated config.security.suite) :
    Ready C (ClientSession.new N config p) (Server.new M served store q) where
  client := .inl rfl
  server := rfl
  mechanism := hmechanism
  keyed _ := hkeyed
  rekeyed _ := hrekeyed
  requests _ _ h := by cases h
  answers := ReplayWindow.new_upTo _ _

/-! ## What each finds in the other's user information -/

theorem ApduTag.bare_initiate : ApduTag.initiateRequest.bare ∧ ApduTag.initiateResponse.bare := by
  unfold ApduTag.bare
  decide
/-- What a client proposes. -/
def ClientConfig.proposal (config : ClientConfig) (key : Option Bytes) : InitiateRequest where
  dedicatedKey := key
  proposedConformance := config.conformance
  clientMaxReceivePduSize := config.maxPduSize

/-- What a server grants. -/
def Server.grant (s : Server σ π M) : InitiateResponse where
  negotiatedConformance := s.negotiated
  serverMaxReceivePduSize := s.config.maxPduSize
  vaaName := vaaName s.config.referencing

/-- The InitiateRequest of an AARQ reads back. -/
theorem readInitiate_written {config : ClientConfig} {key : Option Bytes}
    (hw : WellSized (Cli.initiateRequest config key)) :
    (readInitiate (Reader.new (Cli.initiateRequest config key).data)).1 = .ok (some (config.proposal key)) := by
  have hread : ReadsBack readInitiate (Cli.initiateRequest config key) (some (config.proposal key)) := by
    refine (ReadsBack.u8 ApduTag.initiateRequest.asU8).bind ?_
    rw [if_pos (ApduTag.fromU8_asU8 _)]
    exact ((InitiateRequest.regains (config.proposal key)) hw.append.2).map
  exact hread.run

/-- The InitiateResponse of an AARE reads back. -/
theorem readGranted_written (s : Server σ π M) :
    (readGranted (Reader.new (Srv.initiateResponse s).data)).1 = .ok (.initiated s.grant) := by
  have hread : ReadsBack readGranted (Srv.initiateResponse s) (.initiated s.grant) := by
    refine (ReadsBack.u8 ApduTag.initiateResponse.asU8).bind ?_
    rw [ApduTag.fromU8_asU8]
    have hgrant := InitiateResponse.readsBack s.grant
    refine ⟨hgrant.fault, ?_⟩
    have htakes : Takes (InitiateResponse.decode >>= fun r => Prog.ofExcept r.checkVersion >>= fun _ =>
        pure (Granted.initiated r)) (s.grant.encode.data ++ []) (.initiated s.grant = ·) :=
      hgrant.takes.bind fun r hr => by subst hr; exact .pure rfl
    rwa [List.append_nil] at htakes
  exact hread.run

/-- What is opened is what was written. -/
theorem Info.opened {p : π} {q : Protector π} {policy : SecurityPolicy} {own : Option SystemTitle}
    {tag ciphered : ApduTag} {last value : UInt32} {plain info : Bytes} {ctx : Incoming} {w : ReplayWindow}
    {size : Nat} {opened : Opened} {t : OpenState}
    (h : Info C p policy own tag ciphered last plain info value)
    (hun : ciphered.unprotect = some (.global, tag)) (hbare : tag.bare)
    (htag : plain.head? = some tag.asU8) (hallow : tag ∈ ctx.plainAllowed)
    (hshared : policy.isNone = false → Shared C p q policy own ctx)
    (hw : policy.isNone = false → w.UpTo last) (hroom : plain.length + SecuritySuite.tagLen ≤ size)
    (hsize : size < 2 ^ 31) (hopen : unprotectApdu C q ctx info ⟨w, zeros size⟩ = (.ok opened, t)) :
    opened.plain = plain ∧ (policy.isNone = false → t.replay.UpTo value) := by
  obtain ⟨frame, t', hrun, ht⟩ := h.opens hun hbare htag hallow hshared hw hroom hsize
  obtain ⟨hopened, rfl⟩ := Prod.mk.inj (hrun.symm.trans hopen)
  obtain rfl := Except.ok.inj hopened
  exact ⟨rfl, ht⟩

theorem Srv.unprotectInitiate_opened {s t : Server σ π M} {info : Bytes} {opened : Opened}
    (h : Srv.unprotectInitiate C info s = (.ok opened, t)) :
    ∃ t', unprotectApdu C s.protector (s.incoming C s.config.security.global plainInitiate) info
      ⟨s.peerReplay, zeros 256⟩ = (.ok opened, t') ∧ t.peerReplay = t'.replay := by
  have hrun : Srv.unprotect C s.config.security.global plainInitiate 256 info s = (.ok opened, t) := h
  unfold Srv.unprotect at hrun
  split at hrun
  · rename_i opened' t' hopen
    obtain ⟨hopened, rfl⟩ := Prod.mk.inj hrun
    obtain rfl := Except.ok.inj hopened
    refine ⟨t', hopen, ?_⟩
    cases opened'.frame <;> rfl
  · cases hrun

theorem Cli.unprotectInitiate_opened {c c' : ClientSession π N} {info plain : Bytes}
    (h : Cli.unprotectInitiate C info c = (.ok plain, c')) :
    ∃ opened t', unprotectApdu C c.protector (c.incoming C c.config.security.global Cli.plainInitiate) info
      ⟨c.peerReplay, zeros 256⟩ = (.ok opened, t') ∧ opened.plain = plain ∧ c'.peerReplay = t'.replay := by
  have hrun : (((unprotectApdu C c.protector (c.incoming C c.config.security.global Cli.plainInitiate) info
      ⟨c.peerReplay, zeros 256⟩).1.map Opened.plain, { c with peerReplay := (unprotectApdu C c.protector
      (c.incoming C c.config.security.global Cli.plainInitiate) info ⟨c.peerReplay, zeros 256⟩).2.replay }) :
      Result Bytes × ClientSession π N) = (.ok plain, c') := h
  generalize unprotectApdu C c.protector (c.incoming C c.config.security.global Cli.plainInitiate) info
    ⟨c.peerReplay, zeros 256⟩ = out at hrun ⊢
  obtain ⟨r, t'⟩ := out
  obtain ⟨hplain, rfl⟩ := Prod.mk.inj hrun
  cases r with
  | error e => cases hplain
  | ok opened => exact ⟨opened, t', rfl, Except.ok.inj hplain, rfl⟩

/-- The server `a` is `s` where it has cleared the association before, and knows the title it was given. -/
structure Server.Recalled (C : CryptoProvider π) (s a : Server σ π M) (title : Option SystemTitle) : Prop where
  config : a.config = s.config
  provider : a.protector.provider = C.clearDedicatedKey s.protector.provider
  policy : a.protector.policy = s.protector.policy.global
  caller : a.clientSystemTitle = title
  counter : a.invocationCounter = s.invocationCounter
  transfer : a.transfer = .idle
  upTo : ∀ last, title ≠ none →
    (∀ t, title = some t → s.replayOwner = some t → s.peerReplay.UpTo last) → a.peerReplay.UpTo last

theorem Server.called_given {s : Server σ π M} {aarq : Aarq} {title : Option SystemTitle}
    (h : aarq.callingApTitle = title.map SystemTitle.bytes) : s.Recalled C (s.called C aarq) title := by
  unfold Server.called
  cases title with
  | none =>
    rw [h]
    exact ⟨rfl, rfl, rfl, rfl, rfl, rfl, fun last hne => absurd rfl hne⟩
  | some t =>
    rw [h, Option.map_some, Option.map_some, SystemTitle.fromSlice_bytes]
    dsimp only
    unfold Server.takeTitle
    by_cases howner : s.replayOwner = some t
    · rw [if_pos (by exact howner)]
      exact ⟨rfl, rfl, rfl, rfl, rfl, rfl, fun last _ hup => hup t rfl howner⟩
    · rw [if_neg (by exact howner)]
      exact ⟨rfl, rfl, rfl, rfl, rfl, rfl, fun last _ _ => ReplayWindow.new_upTo _ _⟩

/-- The client knows the title that it was given. -/
theorem ClientSession.titled_given {c : ClientSession π N} {aare : Aare} {title : Option SystemTitle}
    (h : aare.respondingApTitle = title.map SystemTitle.bytes) :
    ∃ known, c.titled aare = { c with serverSystemTitle := known } ∧ ∀ t, title = some t → known = some t := by
  unfold ClientSession.titled
  cases title with
  | none =>
    rw [h]
    exact ⟨c.serverSystemTitle, rfl, nofun⟩
  | some t =>
    rw [h, Option.map_some, Option.map_some, SystemTitle.fromSlice_bytes]
    exact ⟨some t, rfl, fun _ h => h⟩

/-! ## What the handshake leaves -/

@[simp] theorem SecurityPolicy.dedicated_withDedicated (p : SecurityPolicy) (dedicated : Bool) :
    (p.withDedicated dedicated).dedicated = dedicated := by
  cases dedicated <;> rfl

/-- A dedicated key in force is the one that was handed over. -/
theorem Protector.Rekeyed.policy {p q : Protector π} {key : Option Bytes} {policy : SecurityPolicy}
    (h : p.Rekeyed C q key) (hp : p.policy = policy.withDedicated false) :
    q.policy = policy.withDedicated key.isSome := by
  cases key with
  | none =>
    obtain rfl : q = p := h
    exact hp
  | some b =>
    obtain ⟨k, -, -, hq⟩ := h
    rw [hq, hp]
    rfl

/-- The client is under its dedicated key, where it has one. -/
theorem Ready.inForce_policy {c : ClientSession π N} {s : Server σ π M} (h : Ready C c s) :
    c.inForce.policy = c.config.security.withDedicated c.config.security.dedicated := by
  unfold ClientSession.inForce
  cases hded : c.config.security.dedicated with
  | false =>
    obtain hpolicy | ⟨-, hyes⟩ := h.client
    · exact hpolicy
    · cases hded.symm.trans hyes
  | true =>
    rw [if_pos rfl]
    unfold Protector.setDedicated
    obtain hpolicy | ⟨hpolicy, -⟩ := h.client
    · rw [hpolicy]
      rfl
    · rw [hpolicy]

theorem ClientSession.inForce_provider (c : ClientSession π N) : c.inForce.provider = c.protector.provider := by
  unfold ClientSession.inForce
  split <;> rfl

/-- The client and the server have the same keys, and know of each other what a proof is about. -/
structure Introduced (C : CryptoProvider π) (c : ClientSession π N) (s : Server σ π M) : Prop where
  caller : s.clientSystemTitle = c.config.systemTitle
  challenge : s.serverChallenge = c.serverChallenge
  suite : s.protector.policy.suite = c.protector.policy.suite
  authKey : C.authenticationKey s.protector.provider = C.authenticationKey c.protector.provider
  mac : ∀ nonce aad,
    C.gmac s.protector.provider .globalUnicastEncryption c.protector.policy.suite nonce aad =
      C.gmac c.protector.provider .globalUnicastEncryption c.protector.policy.suite nonce aad

section Meeting

variable {c c₁ : ClientSession π N} {s a s₁ : Server σ π M} {key given : Option Bytes} {info info' : Bytes}
  {aarq : Aarq} {bytes : Bytes} {known : Option SystemTitle} {opened opened' : Opened} {t t' : OpenState}

/-- The keys are the same, whichever of them is in force. -/
theorem Ready.keys (h : Ready C c s) (hp : c.config.security.isNone = false)
    (hasked : c.Proposed C c₁ key given info) (hrecalled : s.Recalled C a c.config.systemTitle)
    (hkey : a.protector.Rekeyed C s₁.protector key) :
    Keyed C c.protector.provider s₁.protector.provider .globalUnicastEncryption c.config.security.suite ∧
      Keyed C c.protector.provider s₁.protector.provider
        (c.config.security.withDedicated c.config.security.dedicated).keyUsage c.config.security.suite := by
  cases key with
  | none =>
    have hsame : s₁.protector = a.protector := hkey
    have hno : c.config.security.dedicated = false :=
      Bool.eq_false_iff.mpr fun hyes => hasked.offered.mpr ⟨hp, hyes⟩ rfl
    rw [hsame, hrecalled.provider, hno]
    exact ⟨h.keyed hp, h.keyed hp⟩
  | some b =>
    obtain ⟨k, hk, hset, -⟩ := hkey
    have hyes := (hasked.offered.mp (Option.some_ne_none b)).2
    rw [hrecalled.provider] at hset
    rw [hyes]
    exact h.rekeyed hp b k s₁.protector.provider (hasked.held b rfl) hk hset

/-- Both ends found what the other wrote: the server `s₁` what `c` proposes, and the client what `s₁` grants.
Neither window has taken more than was sent, and where there is protection it is the same. -/
structure Met (C : CryptoProvider π) (c c₁ : ClientSession π N) (s s₁ : Server σ π M) (key : Option Bytes)
    (w w' : ReplayWindow) : Prop where
  same : s.config.security.isNone = c.config.security.isNone
  alike : c.config.security.isNone = false → s.config.security.global = c.config.security.global
  shared : c.config.security.isNone = false → Keyed C c.protector.provider s₁.protector.provider
    .globalUnicastEncryption c.config.security.suite
  keyed : c.config.security.isNone = false → Keyed C c.protector.provider s₁.protector.provider
    (c.config.security.withDedicated c.config.security.dedicated).keyUsage c.config.security.suite
  policy : s₁.protector.policy = s.config.security.withDedicated key.isSome
  offered : c.config.security.isNone = false → key.isSome = c.config.security.dedicated
  requests : c.config.security.isNone = false → w.UpTo c₁.invocationCounter.last
  answers : c.config.security.isNone = false → w'.UpTo s₁.invocationCounter.last
  conformance : s₁.negotiated = s.config.conformance.negotiate c.config.conformance
  size : s₁.clientMaxPduSize =
    if c.config.maxPduSize = 0 then s.config.maxPduSize else c.config.maxPduSize

/-- What each of two ends finds in the user information of the other. -/
theorem Ready.meets (hready : Ready C c s) (hasked : c.Proposed C c₁ key given info)
    (hnone : s.config.security.isNone = c.config.security.isNone)
    (hrecalled : s.Recalled C a c.config.systemTitle) (hgranted : a.Granted C s₁ aarq opened t.replay bytes)
    (hinfo' : Info C s₁.protector.provider s.config.security s.config.systemTitle .initiateResponse
      .gloInitiateResponse s.invocationCounter.last (Srv.initiateResponse s₁).data info'
      s₁.invocationCounter.last)
    (hknown : ∀ title, s.config.systemTitle = some title → known = some title)
    (hun : unprotectApdu C a.protector ⟨s.config.systemTitle, c.config.systemTitle,
      C.authenticationKey a.protector.provider, s.config.security.global, plainInitiate⟩ info
      ⟨a.peerReplay, zeros 256⟩ = (.ok opened, t))
    (hun' : unprotectApdu C c.protector ⟨c.config.systemTitle, known,
      C.authenticationKey c.protector.provider, c.config.security.global, Cli.plainInitiate⟩ info'
      ⟨c.peerReplay, zeros 256⟩ = (.ok opened', t')) :
    Met C c c₁ s s₁ key t.replay t'.replay ∧ opened'.plain = (Srv.initiateResponse s₁).data := by
  have hshort := hasked.short
  have hshort' : (Srv.initiateResponse s₁).data.length = 14 := rfl
  -- Each finds that the other protects as it demands, and so they protect alike.
  have hagree (hp : c.config.security.isNone = false) := SecurityPolicy.agree hp (hnone.trans hp)
    (hasked.info.demands hp rfl (by omega) rfl (congrArg Prod.fst hun))
    (hinfo'.demands (hnone.trans hp) rfl (by omega) rfl (congrArg Prod.fst hun'))
  obtain ⟨hplain, hupTo⟩ := hasked.info.opened rfl ApduTag.bare_initiate.1 rfl (List.mem_singleton.mpr rfl)
    (fun hp => ⟨(hagree hp).2.1, (hagree hp).1,
      (congrArg C.authenticationKey hrecalled.provider).trans (hready.keyed hp).authKey, fun _ h => h,
      hrecalled.provider ▸ (hready.keyed hp).requests⟩)
    (fun hp => hrecalled.upTo _ (hasked.info.named hp) hready.requests) (by unfold SecuritySuite.tagLen; omega)
    (by decide) hun
  -- The server has the dedicated key now, and the client opens what it sends.
  obtain ⟨hkey, hconformance, hpdu⟩ := hgranted.asked (c.config.proposal key) (by
    rw [hplain]
    exact readInitiate_written hasked.wellSized)
  have hkeys (hp : c.config.security.isNone = false) := hready.keys hp hasked hrecalled hkey
  have hsuite (hp : c.config.security.isNone = false) : s.config.security.suite = c.config.security.suite :=
    (congrArg SecurityPolicy.suite (hagree hp).1 :)
  obtain ⟨hplain', hupTo'⟩ := hinfo'.opened rfl ApduTag.bare_initiate.2 rfl (List.mem_cons_self ..)
    (fun hp => ⟨(hagree (hnone.symm.trans hp)).2.2, (hagree (hnone.symm.trans hp)).1.symm,
      (hkeys (hnone.symm.trans hp)).1.authKey.symm, hknown,
      hsuite (hnone.symm.trans hp) ▸ (hkeys (hnone.symm.trans hp)).1.answers⟩)
    (fun _ => hready.answers) (by unfold SecuritySuite.tagLen; omega) (by decide) hun'
  refine ⟨⟨hnone, fun hp => (hagree hp).1, fun hp => (hkeys hp).1, fun hp => (hkeys hp).2,
    hkey.policy (hrecalled.policy.trans hready.server), fun hp => ?_, hupTo, fun hp => hupTo' (hnone.trans hp),
    ?_, ?_⟩, hplain'⟩
  · refine Bool.eq_iff_iff.mpr ⟨fun hkey => ?_, fun hded => ?_⟩
    · exact (hasked.offered.mp (Option.isSome_iff_ne_none.mp hkey)).2
    · exact Option.isSome_iff_ne_none.mpr (hasked.offered.mpr ⟨hp, hded⟩)
  · rw [hconformance, hrecalled.config]
    rfl
  · rw [hpdu, hrecalled.config]
    rfl

/-- Two ends that met are linked, the client under the key that it uses now. -/
theorem Met.linked {w w' : ReplayWindow} (h : Met C c c₁ s s₁ key w w') (hready : Ready C c s)
    {c₂ : ClientSession π N} (hconfig : c₂.config = c.config) (hprotector : c₂.protector = c.inForce)
    (htitle : ∀ title, s.config.systemTitle = some title → c₂.serverSystemTitle = some title)
    (hcounter : c₂.invocationCounter = c₁.invocationCounter) (hreplay : c₂.peerReplay = w')
    (hconfig' : s₁.config = s.config) (htitle' : s₁.clientSystemTitle = c.config.systemTitle)
    (hreplay' : s₁.peerReplay = w) : Linked C c₂ s₁ := by
  have hpolicy : c₂.protector.policy = c.config.security.withDedicated c.config.security.dedicated := by
    rw [hprotector]
    exact hready.inForce_policy
  have hprovider : c₂.protector.provider = c.protector.provider := by
    rw [hprotector]
    exact c.inForce_provider
  have hno (hp : c₂.protector.policy.isNone = false) : c.config.security.isNone = false := by
    rwa [hpolicy, SecurityPolicy.isNone_withDedicated] at hp
  have hno' (hp : s₁.protector.policy.isNone = false) : c.config.security.isNone = false := by
    rwa [h.policy, SecurityPolicy.isNone_withDedicated, h.same] at hp
  have hsame (hp : c.config.security.isNone = false) : s₁.protector.policy = c₂.protector.policy := by
    rw [hpolicy, h.policy, h.offered hp]
    exact (congrArg (SecurityPolicy.withDedicated · c.config.security.dedicated) (h.alike hp) :)
  have hkeyed (hp : c.config.security.isNone = false) : Keyed C c₂.protector.provider
      s₁.protector.provider c₂.protector.policy.keyUsage c₂.protector.policy.suite := by
    rw [hprovider, hpolicy]
    exact h.keyed hp
  refine ⟨?_, ?_, ?_, fun hp => ?_, fun hp => ?_⟩
  · rw [hpolicy, hconfig, SecurityPolicy.isNone_withDedicated]
  · rw [h.policy, hconfig', SecurityPolicy.isNone_withDedicated]
  · rw [h.policy, hpolicy, SecurityPolicy.isNone_withDedicated, SecurityPolicy.isNone_withDedicated, h.same]
  · have hp' := hno hp
    rw [hconfig, hcounter, htitle', hreplay']
    exact ⟨hsame hp', (hkeyed hp').authKey, (hkeyed hp').requests, fun _ h => h, h.requests hp'⟩
  · have hp' := hno' hp
    rw [hconfig', hreplay]
    refine ⟨(hsame hp').symm, (hkeyed hp').authKey.symm, ?_, htitle, h.answers hp'⟩
    rw [hsame hp']
    exact (hkeyed hp').answers

/-- Under protection they can prove themselves to one another. -/
theorem Met.introduced {w w' : ReplayWindow} (h : Met C c c₁ s s₁ key w w') (hready : Ready C c s)
    (hp : c.config.security.isNone = false) {c₂ : ClientSession π N} (hconfig : c₂.config = c.config)
    (hprotector : c₂.protector = c.inForce) (htitle : s₁.clientSystemTitle = c.config.systemTitle)
    (hchallenge : s₁.serverChallenge = c₂.serverChallenge) : Introduced C c₂ s₁ := by
  have hsuite : c₂.protector.policy.suite = c.config.security.suite := by
    rw [hprotector, hready.inForce_policy]
    rfl
  have hprovider : c₂.protector.provider = c.protector.provider := by
    rw [hprotector]
    exact c.inForce_provider
  refine ⟨by rw [hconfig, htitle], hchallenge, ?_, ?_, ?_⟩
  · rw [hsuite, h.policy]
    exact (congrArg SecurityPolicy.suite (h.alike hp) :)
  · rw [hprovider]
    exact (h.shared hp).authKey
  · rw [hprovider, hsuite]
    exact (h.shared hp).requests.mac

end Meeting

/-- The client `c` and the server `s` have an association, and are the ends `c'` and `s'` of it. -/
structure Associated (C : CryptoProvider π) (c c' : ClientSession π N) (s s' : Server σ π M) : Prop where
  client : c'.state = if c.config.mechanism.isHighLevel then .authenticatingHls else .associated
  server : s'.state = if c.config.mechanism.isHighLevel then .awaitingHlsReply else .associated
  linked : Linked C c' s'
  agreed : s'.Agreed
  granted : c'.negotiated = some s'.grant
  conformance : s'.negotiated = s.config.conformance.negotiate c.config.conformance
  size : s'.clientMaxPduSize =
    if c.config.maxPduSize = 0 then s.config.maxPduSize else c.config.maxPduSize
  challenges : c.config.mechanism.isHighLevel = true →
    s'.clientChallenge = c'.clientChallenge ∧ s'.serverChallenge = c'.serverChallenge
  introduced : c.config.mechanism.isHighLevel = true → c.config.security.isNone = false → Introduced C c' s'
  dedicated : c.config.security.isNone = false → c'.protector.policy.dedicated = c.config.security.dedicated ∧
    s'.protector.policy.dedicated = c.config.security.dedicated

/-- Where neither end fails there is no association for either, or one for both. -/
theorem handshake_links {c c₁ c₂ : ClientSession π N} {s s₁ : Server σ π M} {room room' : Nat}
    {rng rng' : Entropy} {aarq aare : Bytes} {step : AssociationStep} (hready : Ready C c s)
    (hasked : Cli.associateRequest C room rng c = (.ok aarq, c₁))
    (htakes : aarq.length ≤ s.config.maxPduSize.toNat)
    (hserved : Srv.handle C S aarq room' rng' s = (.ok aare, s₁))
    (hanswered : Cli.handleAssociateResponse C aare c₁ = (.ok step, c₂)) :
    c₂.state = .closed ∧ s₁.Over ∨ Associated C c c₂ s s₁ := by
  obtain ⟨key, given, info, hask, hfault, rfl⟩ := Cli.associateRequest_ok hasked
  have hmechanism := Cli.requestAarq_mechanism c.config c.applicationContext given info
  have hcanon := Cli.requestAarq_canonical hready.mechanism given info
  generalize hrequest : Cli.requestAarq c.config c.applicationContext given info = request at *
  have hcontext : request.context = c.applicationContext := by
    rw [← hrequest]
    rfl
  have hd : Read.fromBytes Aarq.decode request.encode.data = .ok request := by
    have hlt := s.config.maxPduSize.toNat_lt
    obtain ⟨v, hv, rfl⟩ := (Aarq.takes hcanon ⟨hfault, by unfold Emit.size; omega⟩).fromBytes
    exact hv
  rw [Srv.handle_aarq C S htakes (Srv.head_of_aarq hd)] at hserved
  have huser : request.userInformation = some info := by
    rw [← hrequest]
    rfl
  obtain ⟨hover, hno⟩ | ⟨haccepts, opened, w, ev, hopen, hgranted⟩ := Srv.handleAarq_ok hd huser hserved
  · exact .inl ⟨Cli.handleAssociateResponse_declined hno hanswered, hover⟩
  right
  have hnone := haccepts.ciphers hcontext
  have hrecalled : s.Recalled C (s.called C request) c.config.systemTitle :=
    Server.called_given (by rw [← hrequest]; rfl)
  generalize s.called C request = a at hrecalled hopen hgranted
  obtain ⟨answer, info', haare, hanswer, hinfo'⟩ := hgranted.answer
  rw [hrecalled.config, hmechanism, hcontext] at haare
  rw [hrecalled.config, hrecalled.counter] at hinfo'
  obtain ⟨plain, w', hopen', hclient⟩ := Cli.handleAssociateResponse_accepted haare rfl
    (congrArg some (by unfold ClientSession.applicationContext; rw [hask.config]))
    (by rw [hask.config]; rfl) rfl hanswered
  obtain ⟨known, htitled, hknown⟩ : ∃ known, c₁.titled (Srv.acceptedAare s.config c.applicationContext
      c.config.mechanism answer info') = { c₁ with serverSystemTitle := known } ∧
      ∀ t, s.config.systemTitle = some t → known = some t := ClientSession.titled_given rfl
  rw [htitled] at hopen' hclient
  obtain ⟨t, hun, hw⟩ := Srv.unprotectInitiate_opened hopen
  obtain ⟨opened', t', hun', rfl, hw'⟩ := Cli.unprotectInitiate_opened hopen'
  obtain rfl : w = t.replay := hw
  obtain rfl : w' = t'.replay := hw'
  have hin : a.incoming C a.config.security.global plainInitiate = ⟨s.config.systemTitle,
      c.config.systemTitle, C.authenticationKey a.protector.provider, s.config.security.global,
      plainInitiate⟩ := by
    unfold Server.incoming
    rw [hrecalled.config, hrecalled.caller]
  have hin' : ({ c₁ with serverSystemTitle := known } : ClientSession π N).incoming C
      c₁.config.security.global Cli.plainInitiate = ⟨c.config.systemTitle, known,
      C.authenticationKey c.protector.provider, c.config.security.global, Cli.plainInitiate⟩ := by
    unfold ClientSession.incoming
    rw [hask.config, hask.protector]
  rw [hin] at hun
  dsimp only at hun'
  rw [hin', hask.protector, hask.replay] at hun'
  obtain ⟨hmet, hplain⟩ := hready.meets hask hnone hrecalled hgranted hinfo' hknown hun hun'
  obtain ⟨given', rfl, hgiven⟩ := hclient s₁.grant (by
    rw [hplain]
    exact readGranted_written s₁)
  have hopened : c₁.inForce = c.inForce := by
    unfold ClientSession.inForce
    rw [hask.config, hask.protector]
  have hcaller : s₁.clientSystemTitle = c.config.systemTitle := hgranted.title.trans hrecalled.caller
  have hchallenges (hhigh : c.config.mechanism.isHighLevel = true) :
      s₁.clientChallenge = c₁.clientChallenge ∧ s₁.serverChallenge = given' := by
    have hhigh' : request.mechanism.isHighLevel = true := by rw [hmechanism]; exact hhigh
    have hsent := hgranted.given hhigh'
    rw [← hrequest] at hsent
    obtain ⟨rfl, -⟩ := hanswer hhigh'
    exact ⟨Option.some.inj (hsent.symm.trans (hask.given hhigh)),
      Option.some.inj (hgiven (by rw [hask.config]; exact hhigh))⟩
  refine {
    client := congrArg (fun x : ClientConfig => if x.mechanism.isHighLevel = true then
      SessionState.authenticatingHls else .associated) hask.config
    server := by rw [hgranted.state, hmechanism]
    linked := hmet.linked hready hask.config hopened hknown rfl rfl
      (hgranted.config.trans hrecalled.config) hcaller hgranted.replay
    agreed := by
      unfold Server.Agreed
      rw [hgranted.transfer, hrecalled.transfer]
      trivial
    granted := rfl
    conformance := hmet.conformance
    size := hmet.size
    challenges := hchallenges
    introduced := fun hhigh hp => hmet.introduced hready hp hask.config hopened hcaller (hchallenges hhigh).2
    dedicated := fun hp => ⟨?_, ?_⟩ }
  · change c₁.inForce.policy.dedicated = c.config.security.dedicated
    rw [hopened, hready.inForce_policy, SecurityPolicy.dedicated_withDedicated]
  · rw [hmet.policy, hmet.offered hp, SecurityPolicy.dedicated_withDedicated]

/-! ## A handshake with proofs -/

/-- A client that authenticates and encrypts, and will prove itself. -/
def askingSession : ClientSession SampleKeys 64 :=
  .new 64 { systemTitle := some sampleTitle, mechanism := .highGmac, security := samplePolicy } .involutive

/-- The server that it calls. -/
def grantingServer : Server Unit SampleKeys 64 :=
  .new 64 {
    systemTitle := some ⟨[0x4D, 0x4D, 0x4D, 0, 0, 0, 0, 9], rfl⟩
    mechanism := .highGmac
    security := samplePolicy } () .involutive

theorem asking_ready : Ready sampleProvider askingSession grantingServer := by
  refine .new (by decide) ?_ (by intro b k q hb; cases hb)
  exact ⟨rfl, sampleProvider_inverts _ rfl, sampleProvider_inverts _ rfl⟩

theorem handshake_links_gmac : ∃ c₂ s₁, Associated sampleProvider askingSession c₂ grantingServer s₁ ∧
    c₂.state = .authenticatingHls := by
  let store : ObjectStore Unit := .constant [0x00] ⟨0x01⟩
  have run {α β : Type} {out : Except Error α × β} {a : α} (h : out.1 = .ok a) : out = (.ok a, out.2) := by
    rw [← h]
  obtain ⟨aarq, haarq⟩ : ∃ aarq, aarq = (Cli.associateRequest sampleProvider 256 .zeros
    askingSession).1.toOption.getD [] := ⟨_, rfl⟩
  obtain ⟨aare, haare⟩ : ∃ aare, aare = (Srv.handle sampleProvider store aarq 256 .zeros
    grantingServer).1.toOption.getD [] := ⟨_, rfl⟩
  have hasked : Cli.associateRequest sampleProvider 256 .zeros askingSession = (.ok aarq, _) :=
    run (by rw [haarq]; decide +kernel)
  have htakes : aarq.length ≤ grantingServer.config.maxPduSize.toNat := by
    rw [haarq]
    decide +kernel
  have hserved : Srv.handle sampleProvider store aarq 256 .zeros grantingServer = (.ok aare, _) :=
    run (by rw [haare, haarq]; decide +kernel)
  have hanswered : Cli.handleAssociateResponse sampleProvider aare
      (Cli.associateRequest sampleProvider 256 .zeros askingSession).2 = (.ok .hlsReplyRequired, _) :=
    run (by rw [haare, haarq]; decide +kernel)
  obtain ⟨hclosed, -⟩ | hassociated := handshake_links asking_ready hasked htakes hserved hanswered
  · exact absurd hclosed (by rw [haare, haarq]; decide +kernel)
  · exact ⟨_, _, hassociated, hassociated.client⟩

end Dlms
