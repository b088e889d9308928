import DlmsCosem.Acse.Decoding
import DlmsCosem.Server.Reply

/-!
# What comes of an AARQ

`handle_aarq` has many exits: the association before is cleared early, and a refusal or an error may
come before or after the new state is set. Here each part of the handshake has one theorem that says
where it may end and in what state: `takeInitiate_proposal` for the user information,
`startAuthentication_started` for the challenge, `acceptAssociation_accepted` for the AARE, and
`handleAarq_begins` for the whole.
-/

namespace Dlms

variable {σ π : Type} {N : Nat}

/-- Neither open nor waiting for the proof of the client. -/
def Server.Over (s : Server σ π N) : Prop := s.state = .closed ∨ s.state = .idle

namespace Srv

variable (C : CryptoProvider π) (S : ObjectStore σ)

/-! ## Opening a frame -/

/-- What an APDU held: it came plain and may do so, or it came in a frame of the peer that is
protected as the policy demands. -/
theorem unprotect_frame {policy : SecurityPolicy} {plain : List ApduTag} {size : Nat}
    {apdu : Bytes} {s : Server σ π N} {opened : Opened}
    (h : (unprotect C policy plain size apdu s).1 = .ok opened) :
    (opened = ⟨apdu, none⟩ ∧ ∃ tag, ApduTag.fromU8 (apdu.headD 0) = some tag ∧
        (policy.isNone = true ∨ tag ∈ plain)) ∨
      ∃ f, opened.frame = some f ∧ f.policy = policy ∧ policy.checkReceived f.control = .ok () ∧
        s.clientSystemTitle = some f.title := by
  have hu := unprotectApdu_unprotected C s.protector (s.incoming C policy plain) apdu
    ⟨s.peerReplay, zeros size⟩
  unfold unprotect at h
  generalize unprotectApdu C s.protector (s.incoming C policy plain) apdu
    ⟨s.peerReplay, zeros size⟩ = out at h hu
  cases hu with
  | refused e t => cases h
  | plain tag t htag hallow =>
    obtain rfl := Except.ok.inj h
    exact .inl ⟨rfl, tag, htag, hallow⟩
  | taken f r t hpeer hpol hrec hcheck ht hopened =>
    cases r with
    | error e => cases h
    | ok o =>
      obtain rfl := Except.ok.inj h
      exact .inr ⟨f, hopened _ rfl, hpol, hrec, hpeer⟩

theorem unprotectInitiate_state (s : Server σ π N) (apdu : Bytes) :
    ∃ w fs, (unprotectInitiate C apdu s).2 = { s with peerReplay := w, trace := s.trace ++ fs } ∧
      (fs = [] ∨ ∃ f, fs = [.opened f]) :=
  unprotect_state C s s.config.security.global plainInitiate 256 apdu

/-! ## The user information -/

/-- Opened user information is not a well-formed InitiateRequest and does not say that it is
something else, or its dedicated key has no length of a key. -/
inductive MalformedInitiate (plain : Bytes) : Prop
  | unread (e : Error) : (readInitiate (Reader.new plain)).1 = .error e → MalformedInitiate plain
  | key (init : InitiateRequest) (key : Bytes) :
    (readInitiate (Reader.new plain)).1 = .ok (some init) → init.dedicatedKey = some key →
    key.length ≠ 16 → key.length ≠ 32 → MalformedInitiate plain

/-- Where the user information of an AARQ may leave the handshake. -/
inductive Proposal (s : Server σ π N) (aarq : Aarq) :
    Except Error (Bytes ⊕ Conformance × UInt16) × Server σ π N → Prop
  /-- The handshake is over, with a refusal or because there is no room for one. -/
  | terminated (r : Except Error (Bytes ⊕ Conformance × UInt16)) (t : Server σ π N) : t.Over →
    (∀ x, r ≠ .ok (.inr x)) → Proposal s aarq (r, t)
  /-- Nothing was asked for. -/
  | absent (t : Server σ π N) : t.standing = { s.standing with peerReplay := t.peerReplay } →
    t.state = s.state → t.invocationCounter = s.invocationCounter →
    (∃ fs, t.trace = s.trace ++ fs ∧ ∀ e ∈ fs, ∃ f, e = .opened f) →
    Proposal s aarq (.ok (.inr (.empty, s.config.maxPduSize)), t)
  /-- The user information opened, and cannot be used. -/
  | fault (e : Error) (info : Bytes) (opened : Opened) (t : Server σ π N) :
    aarq.userInformation = some info → (unprotectInitiate C info s).1 = .ok opened →
    MalformedInitiate opened.plain →
    t.standing = { s.standing with peerReplay := t.peerReplay } → t.state = s.state →
    (∃ fs, t.trace = s.trace ++ fs ∧ ∀ e ∈ fs, ∀ a, e ≠ .aarq a) → Proposal s aarq (.error e, t)
  /-- The InitiateRequest was taken, with its dedicated key where it has one. -/
  | taken (info : Bytes) (opened : Opened) (init : InitiateRequest) (p : Protector π)
    (t : Server σ π N) :
    aarq.userInformation = some info → (unprotectInitiate C info s).1 = .ok opened →
    (readInitiate (Reader.new opened.plain)).1 = .ok (some init) →
    (match init.dedicatedKey with
      | none => p = s.protector
      | some key => ∃ k, Key.fromSlice key = .ok k ∧
        C.setDedicatedKey s.protector.provider k = (.ok (), p.provider) ∧
        p.policy = s.protector.policy.withDedicated true) →
    t.standing = { s.standing with peerReplay := t.peerReplay, protector := p } →
    t.state = s.state → t.invocationCounter = s.invocationCounter →
    (∃ fs, t.trace = s.trace ++ fs ++ [.initiate opened.frame init] ∧
      ∀ e ∈ fs, ∃ f, e = .opened f) →
    Proposal s aarq (.ok (.inr (init.proposedConformance, init.clientMaxReceivePduSize)), t)

theorem refuse_over (result : AssociationResult) (diagnostic : UserDiagnostic) (room : Nat)
    (s : Server σ π N) : (refuse S result diagnostic room s).2.Over := by
  unfold refuse setState
  rw [Prog.modify_bind_run, Prog.bind_run_ok (audit_run ..), Prog.gets_bind_run, Prog.gets_bind_run]
  dsimp only
  rw [reply, Prog.ofExcept_run]
  exact .inl rfl

/-- A program that ends the handshake with a reply. -/
theorem Proposal.ended {s s' : Server σ π N} {aarq : Aarq} {m : Srv σ π N Bytes}
    (h : (m s').2.Over) :
    Proposal C s aarq ((m >>= fun r => pure (.inl r) : Srv σ π N (Bytes ⊕ Conformance × UInt16)) s') := by
  match hm : m s' with
  | (.ok b, t) =>
    rw [hm] at h
    rw [Prog.bind_run_ok hm]
    exact .terminated _ _ h nofun
  | (.error e, t) =>
    rw [hm] at h
    rw [Prog.bind_run_error hm]
    exact .terminated _ _ h nofun

/-- The dedicated key of an InitiateRequest is installed, or it ends the handshake. -/
theorem installDedicated_run (dedicated : Bytes) (s : Server σ π N) :
    (∃ e, Key.fromSlice dedicated = .error e ∧ installDedicated C dedicated s = (.error e, s)) ∨
    (∃ k provider, Key.fromSlice dedicated = .ok k ∧
      C.setDedicatedKey s.protector.provider k = (.ok (), provider) ∧
      installDedicated C dedicated s = (.ok true,
        { s with protector := ⟨provider, s.protector.policy.withDedicated true⟩ })) ∨
    ∃ k e provider, Key.fromSlice dedicated = .ok k ∧
      C.setDedicatedKey s.protector.provider k = (.error e, provider) ∧
      installDedicated C dedicated s = (.ok false, { s with protector := { s.protector with provider } }) := by
  unfold installDedicated
  cases hk : Key.fromSlice dedicated with
  | error e => exact .inl ⟨e, rfl, rfl⟩
  | ok k =>
    simp only [Prog.ofExcept_ok, Prog.pure_bind_run, Prog.gets_bind_run, Prog.modify_bind_run]
    match hset : C.setDedicatedKey s.protector.provider k with
    | (.ok _, provider) => exact .inr (.inl ⟨k, provider, rfl, hset, rfl⟩)
    | (.error e, provider) => exact .inr (.inr ⟨k, e, provider, rfl, hset, rfl⟩)

theorem takeInitiate_proposal (aarq : Aarq) (room : Nat) (s : Server σ π N) :
    Proposal C s aarq (takeInitiate C S aarq room s) := by
  unfold takeInitiate
  rw [Prog.gets_bind_run]
  cases hinfo : aarq.userInformation with
  | none => exact .absent s rfl rfl rfl ⟨[], by simp, by simp⟩
  | some info =>
    obtain ⟨w, fs, hu, hfs⟩ := unprotectInitiate_state C s info
    have hopened : ∀ e ∈ fs, ∃ f, e = Event.opened f := by
      obtain rfl | ⟨f, rfl⟩ := hfs <;> simp
    have hquiet : ∀ e ∈ fs, ∀ a, e ≠ Event.aarq a := by
      intro e he a
      obtain ⟨f, rfl⟩ := hopened e he
      nofun
    dsimp only
    rw [Prog.try'_bind_run]
    cases hr : (unprotectInitiate C info s).1 with
    | error e =>
      dsimp only
      split
      · simp only [Prog.gets_bind_run, setState, Prog.modify_bind_run]
        rw [Prog.bind_run_ok (audit_run ..)]
        refine Proposal.ended C ?_
        rw [counterException, reply, Prog.ofExcept_run]
        exact .inr rfl
      · exact Proposal.ended C (refuse_over ..)
    | ok opened =>
      dsimp only
      rw [hu]
      cases hinit : (readInitiate (Reader.new opened.plain)).1 with
      | error e =>
        rw [Prog.ofExcept_error, Prog.throw_bind_run]
        exact .fault e info opened _ hinfo hr (.unread e hinit) rfl rfl ⟨fs, rfl, hquiet⟩
      | ok init =>
        cases init with
        | none =>
          rw [Prog.ofExcept_ok, Prog.pure_bind_run]
          exact .absent _ rfl rfl rfl ⟨fs, rfl, hopened⟩
        | some init =>
          simp only [Prog.ofExcept_ok, Prog.pure_bind_run, log, Prog.modify_bind_run]
          cases hkey : init.dedicatedKey with
          | none =>
            exact .taken info opened init s.protector _ hinfo hr hinit (by rw [hkey]) rfl rfl rfl
              ⟨fs, rfl, hopened⟩
          | some key =>
            dsimp only
            obtain ⟨e, hk, hrun⟩ | ⟨k, provider, hk, hset, hrun⟩ | ⟨k, e, provider, hk, hset, hrun⟩ :=
              installDedicated_run C key ({ s with peerReplay := w, trace := s.trace ++ fs }.log
                (.initiate opened.frame init))
            · rw [Prog.bind_run_error hrun]
              obtain ⟨h16, h32⟩ := Key.fromSlice_error hk
              refine .fault e info opened _ hinfo hr (.key init key hinit hkey h16 h32) rfl rfl
                ⟨fs ++ [.initiate opened.frame init], by simp [Server.log], fun e he => ?_⟩
              rcases List.mem_append.mp he with he | he
              · exact hquiet e he
              · rw [List.mem_singleton.mp he]
                intro a h
                cases h
            · rw [Prog.bind_run_ok hrun]
              exact .taken info opened init ⟨provider, s.protector.policy.withDedicated true⟩ _ hinfo
                hr hinit (by rw [hkey]; exact ⟨k, hk, hset, rfl⟩) rfl rfl rfl ⟨fs, rfl, hopened⟩
            · rw [Prog.bind_run_ok hrun, if_neg Bool.false_ne_true]
              exact Proposal.ended C (refuse_over ..)

/-! ## The challenge -/

/-- Where the start of the authentication may leave the handshake. -/
inductive Started (s : Server σ π N) (aarq : Aarq) (mechanism : AuthMechanism) (rng : Entropy) :
    Except Error (Option Bytes) × Server σ π N → Prop
  /-- There is no challenge to answer or none to send. -/
  | fault (e : Error) (given : Bytes) : mechanism.isHighLevel = true →
    ((∀ v, aarq.callingAuthenticationValue = some v → 64 < v.length) ∨
      ∃ e, rng.fill (challengeLen s.config) = .error e) →
    Started s aarq mechanism rng (.error e, { s with clientChallenge := given })
  /-- The proof of the client is awaited. -/
  | challenge (given challenge : Bytes) : mechanism.isHighLevel = true →
    aarq.callingAuthenticationValue = some given →
    rng.fill (challengeLen s.config) = .ok challenge →
    Started s aarq mechanism rng (.ok (some challenge), { s with
      clientChallenge := given, serverChallenge := challenge, state := .awaitingHlsReply })
  /-- Nothing more is asked for. -/
  | served : mechanism.isHighLevel = false →
    Started s aarq mechanism rng (.ok none, { s with state := .associated })

theorem startAuthentication_started (s : Server σ π N) (aarq : Aarq) (mechanism : AuthMechanism)
    (rng : Entropy) : Started s aarq mechanism rng (startAuthentication aarq mechanism rng s) := by
  unfold startAuthentication
  cases hm : mechanism.isHighLevel with
  | false => exact .served hm
  | true =>
    rw [if_pos rfl]
    cases hv : aarq.callingAuthenticationValue with
    | none => exact .fault _ s.clientChallenge hm (.inl (by rw [hv]; nofun))
    | some given =>
      simp only [need, Prog.pure_bind_run]
      split
      · rename_i hlen
        refine .fault _ s.clientChallenge hm (.inl fun v h => ?_)
        rw [← Option.some.inj (hv.symm.trans h)]
        exact hlen
      · simp only [Prog.modify_bind_run, Prog.gets_bind_run]
        cases hc : rng.fill (challengeLen s.config) with
        | error e => exact .fault e given hm (.inr ⟨e, hc⟩)
        | ok challenge => exact .challenge given challenge hm hv hc

/-! ## The AARE -/

/-- Why the AARE of an accepted association cannot be sent. `s` is the server that writes it. -/
inductive Unanswerable (s : Server σ π N) (context : ApplicationContext) (mechanism : AuthMechanism)
    (challenge : Option Bytes) (room : Nat) : Prop
  | title : s.cipheredAssociation = true → s.config.systemTitle = none →
    Unanswerable s context mechanism challenge room
  | counter : s.cipheredAssociation = true → s.invocationCounter.last = 0xFFFFFFFF →
    Unanswerable s context mechanism challenge room
  | key : s.cipheredAssociation = true → C.authenticationKey s.protector.provider = none →
    Unanswerable s context mechanism challenge room
  | protection (title : SystemTitle) (key : Bytes) (e : Error) : s.cipheredAssociation = true →
    s.config.systemTitle = some title → C.authenticationKey s.protector.provider = some key →
    s.protector.protectAs C s.config.security.global title (s.invocationCounter.last + 1) key
      (initiateResponse s).data 128 = .error e →
    Unanswerable s context mechanism challenge room
  | room (userInfo : Bytes) : (responseInfo C s).1 = .ok userInfo →
    room < (acceptedAare s.config context mechanism challenge userInfo).encode.size →
    Unanswerable s context mechanism challenge room

theorem initiateResponse_size (s : Server σ π N) :
    (initiateResponse s).fault = none ∧ (initiateResponse s).size = 14 := ⟨rfl, rfl⟩

/-- The encoding of a protected InitiateResponse is short. -/
theorem responsePayload_bounded {tag : ApduTag} {control : SecurityControl} {counter : UInt32}
    {payload : Bytes} (h : payload.length ≤ 26) :
    Ber.Bounded (Emit.u8 tag.asU8 ++ CipheredService.encode ⟨control, counter, payload⟩) 160 := by
  have hlen : Emit.length (5 + payload.length) = Emit.u8 (UInt8.ofNat (5 + payload.length)) :=
    if_pos (by omega)
  refine ⟨by rw [Emit.append_fault_of_none rfl, CipheredService.encode, hlen]; rfl, ?_⟩
  rw [Emit.size, Emit.append_data rfl, CipheredService.encode, hlen]
  simp only [Emit.u8_data, List.length_append, List.length_singleton]
  rw [Emit.append_data rfl, Emit.append_data rfl, Emit.append_data rfl]
  simp [Emit.u32]
  omega

/-- Where writing the user information of the AARE may end. -/
inductive Informed (s : Server σ π N) : Except Error Bytes × Server σ π N → Prop
  | fault (e : Error) (t : Server σ π N) : Counted s t →
    (∀ context mechanism challenge room, Unanswerable C s context mechanism challenge room) →
    Informed s (.error e, t)
  | ok (info : Bytes) (t : Server σ π N) : Counted s t → info.length ≤ 160 →
    Informed s (.ok info, t)

theorem responseInfo_informed (s : Server σ π N) : Informed C s (responseInfo C s) := by
  obtain ⟨hfault, hsize⟩ := initiateResponse_size s
  have hplain : reply (initiateResponse s) 64 s = (.ok (initiateResponse s).data, s) := by
    rw [reply_run, SliceWriter.encodeInto_fits hfault (by rw [hsize]; simp)]
  unfold responseInfo
  rw [Prog.gets_bind_run, Prog.gets_bind_run, Prog.bind_run_ok hplain, Prog.gets_bind_run]
  by_cases hc : s.cipheredAssociation = true
  · rw [if_pos hc]
    cases ht : s.config.systemTitle with
    | none => exact .fault _ s (.refl s) fun _ _ _ _ => .title hc ht
    | some title =>
      simp only [need, Prog.pure_bind_run]
      obtain ⟨hmax, e, hn⟩ | ⟨t, -, hn, hcount⟩ := nextCounter_run s
      · rw [Prog.bind_run_error hn]
        exact .fault e s (.refl s) fun _ _ _ _ => .counter hc hmax
      · rw [Prog.bind_run_ok hn]
        have hp : t.protector = s.protector := by
          obtain ⟨c, ev, rfl, -⟩ := hcount
          rfl
        obtain ⟨hk, e, hrun⟩ | ⟨key, hk, hrun⟩ := authKey_run C t
        · rw [Prog.bind_run_error hrun]
          exact .fault e t hcount fun _ _ _ _ => .key hc (hp ▸ hk)
        · rw [Prog.bind_run_ok hrun, Prog.gets_bind_run, hp, log, Prog.modify_bind_run]
          have hcount := hcount.protecting title (s.invocationCounter.last + 1)
          generalize t.log (.protecting title (s.invocationCounter.last + 1)) = t₁ at hcount ⊢
          cases hpay : s.protector.protectAs C s.config.security.global title
              (s.invocationCounter.last + 1) key (initiateResponse s).data 128 with
          | error e => exact .fault e t₁ hcount fun _ _ _ _ => .protection title key e hc ht (hp ▸ hk) hpay
          | ok payload =>
            have hlen : payload.length ≤ (initiateResponse s).size + 12 :=
              s.protector.protectAs_length C hpay
            have hb : Ber.Bounded (Emit.u8 ApduTag.gloInitiateResponse.asU8 ++ CipheredService.encode
                ⟨s.config.security.control, s.invocationCounter.last + 1, payload⟩) 160 :=
              responsePayload_bounded (by omega)
            have hrun := reply_run (Emit.u8 ApduTag.gloInitiateResponse.asU8 ++
              CipheredService.encode ⟨s.config.security.control, s.invocationCounter.last + 1, payload⟩)
              160 t₁
            rw [SliceWriter.encodeInto_fits hb.1 (by simpa using hb.2)] at hrun
            refine Eq.mpr (congrArg (Informed C s) ?_) (.ok _ t₁ hcount hb.2)
            exact hrun
  · rw [if_neg hc]
    refine .ok _ s (.refl s) ?_
    change (initiateResponse s).size ≤ 160
    omega

/-- The association is as it was, and nothing was recorded but bookkeeping. -/
structure Replied (s t : Server σ π N) : Prop where
  standing : t.standing = s.standing
  state : t.state = s.state
  trace : ∃ ev, t.trace = s.trace ++ ev ∧ ∀ e ∈ ev, e.Quiet

theorem Counted.replied {s t : Server σ π N} (h : Counted s t) : Replied s t := by
  obtain ⟨c, ev, rfl, hev⟩ := h
  refine ⟨rfl, rfl, ev, rfl, fun e he => ?_⟩
  have he := hev e he
  cases e <;> trivial

theorem Replied.log {s t : Server σ π N} (h : Replied s t) (store : σ) {e : Event} (he : e.Quiet) :
    Replied s ({ t with store }.log e) := by
  obtain ⟨hs, ht, ev, hev, hq⟩ := h
  refine ⟨hs, ht, ev ++ [e], by simp [Server.log, hev], fun e' he' => ?_⟩
  rcases List.mem_append.mp he' with he' | he'
  · exact hq e' he'
  · rwa [List.mem_singleton.mp he']

/-- Where answering an AARQ that was accepted may end. -/
inductive Accepted (s : Server σ π N) (context : ApplicationContext) (mechanism : AuthMechanism)
    (challenge : Option Bytes) (room : Nat) : Except Error Bytes × Server σ π N → Prop
  | fault (e : Error) (t : Server σ π N) : Replied s t →
    Unanswerable C s context mechanism challenge room →
    Accepted s context mechanism challenge room (.error e, t)
  | ok (bytes info : Bytes) (t : Server σ π N) : Replied s t →
    Read.fromBytes Aare.decode bytes =
      .ok (acceptedAare s.config context mechanism challenge info) →
    Accepted s context mechanism challenge room (.ok bytes, t)

theorem acceptedAare_canonical {context : ApplicationContext} {mechanism : AuthMechanism}
    (config : ServerConfig) (challenge : Option Bytes) (info : Bytes)
    (hctx : .fromArc context.arc = context) (hmech : .fromArc mechanism.arc = mechanism) :
    (acceptedAare config context mechanism challenge info).Canonical where
  applicationContext c hc := by
    obtain rfl : context = c := Option.some.inj hc
    exact hctx
  result := rfl
  diagnostic d hd := by
    obtain rfl : UserDiagnostic.null = d := Diagnostic.user.inj hd
    rfl
  mechanismName m hm := by
    unfold acceptedAare at hm
    simp only at hm
    split at hm
    · obtain rfl : mechanism = m := Option.some.inj hm
      exact hmech
    · simp at hm

theorem acceptAssociation_accepted (s : Server σ π N) {context : ApplicationContext}
    {mechanism : AuthMechanism} {challenge : Option Bytes} (room : Nat)
    (hctx : .fromArc context.arc = context) (hmech : .fromArc mechanism.arc = mechanism)
    (hch : ∀ c, challenge = some c → c.length ≤ 160) :
    Accepted C s context mechanism challenge room
      (acceptAssociation C S context mechanism challenge room s) := by
  unfold acceptAssociation
  have hi := responseInfo_informed C s
  match hr : responseInfo C s with
  | (.error e, t) =>
    rw [hr] at hi
    rw [Prog.bind_run_error hr]
    cases hi with
    | fault _ _ hcount hu => exact .fault e t hcount.replied (hu ..)
  | (.ok info, t) =>
    rw [hr] at hi
    rw [Prog.bind_run_ok hr]
    cases hi with
    | ok _ _ hcount hinfo =>
      have hconfig : t.config = s.config := congrArg Standing.config hcount.replied.standing
      have hreply := hcount.replied.log (S.audit t.store (.associated mechanism t.cipheredAssociation))
        (e := .store (.audit (.associated mechanism t.cipheredAssociation))) trivial
      rw [Prog.gets_bind_run, Prog.gets_bind_run, Prog.bind_run_ok (audit_run ..), reply_run]
      generalize Server.log _ _ = t' at hreply ⊢
      rw [hconfig]
      have hb : Ber.Bounded (acceptedAare s.config context mechanism challenge info).encode 680 := by
        refine Aare.encode_bounded (n := 160) (by omega) (fun b hb => ?_) hch fun b hb => ?_
        · obtain ⟨title, -, rfl⟩ := Option.map_eq_some_iff.mp hb
          rw [title.length_eq]
          omega
        · rwa [← Option.some.inj hb]
      cases henc : SliceWriter.encodeInto (acceptedAare s.config context mechanism challenge info).encode
          (zeros room) with
      | error e =>
        refine .fault e _ hreply (.room info (congrArg Prod.fst hr) ?_)
        by_contra hroom
        rw [SliceWriter.encodeInto_fits hb.1 (by simpa using hroom)] at henc
        cases henc
      | ok bytes =>
        refine .ok bytes info _ hreply ?_
        have hcanon := acceptedAare_canonical s.config challenge info hctx hmech
        exact Aare.readBack hcanon hb (by omega) henc

/-! ## The whole -/

/-- After the user information the handshake is over, it failed, or what was proposed is kept and
the authentication starts. -/
inductive Opens (s : Server σ π N) (aarq : Aarq) (room : Nat) (rng : Entropy) :
    Except Error Bytes × Server σ π N → Prop
  | terminated (out : Except Error Bytes × Server σ π N) : out.2.Over → Opens s aarq room rng out
  | fault (e : Error) (t : Server σ π N) : Proposal C s aarq (.error e, t) →
    Opens s aarq room rng (.error e, t)
  | proceeds (proposed : Conformance) (clientMax : UInt16) (t : Server σ π N) :
    takeInitiate C S aarq room s = (.ok (.inr (proposed, clientMax)), t) →
    ¬ (aarq.mechanism.isHighLevel = true ∧ aarq.mechanism ≠ .highGmac) →
    Opens s aarq room rng ((startAuthentication aarq aarq.mechanism rng >>= fun challenge =>
      acceptAssociation C S aarq.context aarq.mechanism challenge room)
        (t.keepNegotiated proposed clientMax))

theorem openAssociation_opens (s : Server σ π N) (aarq : Aarq) (room : Nat) (rng : Entropy) :
    Opens C S s aarq room rng
      (openAssociation C S aarq aarq.context aarq.mechanism room rng s) := by
  have hp := takeInitiate_proposal C S aarq room s
  unfold openAssociation
  match ht : takeInitiate C S aarq room s with
  | (.error e, t) =>
    rw [ht] at hp
    rw [Prog.bind_run_error ht]
    exact .fault e t hp
  | (.ok (.inl reply), t) =>
    rw [ht] at hp
    rw [Prog.bind_run_ok ht]
    cases hp with
    | terminated _ _ hover => exact .terminated _ hover
  | (.ok (.inr (proposed, clientMax)), t) =>
    rw [Prog.bind_run_ok ht]
    dsimp only
    rw [Prog.modify_bind_run]
    by_cases hm : aarq.mechanism.isHighLevel = true ∧ aarq.mechanism ≠ .highGmac
    · rw [if_pos hm]
      exact .terminated _ (refuse_over ..)
    · rw [if_neg hm]
      exact .proceeds proposed clientMax t ht hm

/-- The server has cleared the association before, and knows who calls: `s₁`. -/
def Called (s : Server σ π N) (aarq : Aarq) (s₁ : Server σ π N) : Prop :=
  (aarq.callingApTitle = none ∧ s₁ = s.begun C aarq) ∨
    ∃ b title, aarq.callingApTitle = some b ∧ SystemTitle.fromSlice b = .ok title ∧
      s₁ = (s.begun C aarq).takeTitle title

/-- The AARQ got as far as its user information, which `s₁` looks at. -/
structure Reached (s : Server σ π N) (apdu : Bytes) (aarq : Aarq) (s₁ : Server σ π N) : Prop where
  decoded : Read.fromBytes Aarq.decode apdu = .ok aarq
  accepts : s.config.Accepts aarq
  called : Called C s aarq s₁
  knows : s.config.Knows aarq

/-- An AARQ does not decode, is refused for what it asks for or knows, names its caller wrongly, or
gets as far as its user information. -/
inductive Begins (s : Server σ π N) (apdu : Bytes) (room : Nat) (rng : Entropy) :
    Except Error Bytes × Server σ π N → Prop
  | malformed (e : Error) : Read.fromBytes Aarq.decode apdu = .error e →
    Begins s apdu room rng (.error e, s)
  | refused (aarq : Aarq) (s₁ : Server σ π N) (diagnostic : UserDiagnostic) :
    Read.fromBytes Aarq.decode apdu = .ok aarq → (s₁ = s.begun C aarq ∨ Called C s aarq s₁) →
    Begins s apdu room rng (refuse S .rejectedPermanent diagnostic room s₁)
  | title (aarq : Aarq) (b : Bytes) (e : Error) : Read.fromBytes Aarq.decode apdu = .ok aarq →
    s.config.Accepts aarq → aarq.callingApTitle = some b → b.length ≠ 8 →
    Begins s apdu room rng (.error e, s.begun C aarq)
  | reached (aarq : Aarq) (s₁ : Server σ π N) : Reached C s apdu aarq s₁ →
    Begins s apdu room rng
      (openAssociation C S aarq aarq.context aarq.mechanism room rng s₁)

theorem handleAarq_begins (s : Server σ π N) (apdu : Bytes) (room : Nat) (rng : Entropy) :
    Begins C S s apdu room rng (handleAarq C S apdu room rng s) := by
  cases hd : Read.fromBytes Aarq.decode apdu with
  | error e =>
    unfold handleAarq
    rw [hd]
    exact .malformed e hd
  | ok aarq =>
    by_cases ha : s.config.Accepts aarq
    · rw [handleAarq_accepted C S hd ha]
      have rest (s₁ : Server σ π N) (hcalled : Called C s aarq s₁) :
          Begins C S s apdu room rng ((if aarq.mechanism = .low ∧
              !Protector.constantTimeEq s.config.expected aarq.given then
            refuse S .rejectedPermanent .authenticationFailure room
          else
            openAssociation C S aarq aarq.context aarq.mechanism room rng) s₁) := by
        split
        · exact .refused aarq s₁ _ hd (.inr hcalled)
        · rename_i hk
          refine .reached aarq s₁ ⟨hd, ha, hcalled, fun hlow => ?_⟩
          rw [not_and, Bool.not_eq_true', Bool.not_eq_false, Protector.constantTimeEq_iff] at hk
          exact (hk hlow).symm
      obtain ⟨hb, hrun⟩ | ⟨b, e, hb, he, hrun⟩ | ⟨b, title, hb, ht, hrun⟩ :=
        callingTitle_run aarq (s.begun C aarq)
      · rw [Prog.bind_run_ok hrun]
        exact rest _ (.inl ⟨hb, rfl⟩)
      · rw [Prog.bind_run_error hrun]
        exact .title aarq b e hd ha hb (SystemTitle.fromSlice_error he)
      · rw [Prog.bind_run_ok hrun]
        exact rest _ (.inr ⟨b, title, hb, ht, rfl⟩)
    · obtain ⟨diagnostic, -, hr⟩ := handleAarq_refused C S hd ha
      rw [hr]
      exact .refused aarq _ _ hd (.inl rfl)

end Srv

end Dlms
