import DlmsCosem.Client.Handshake
import DlmsCosem.Ends.Link
import DlmsCosem.Server.Grants

/-!
# The messages of a handshake

What each end has done once a step of the handshake has not failed: the client that sends an AARQ
(`Cli.associateRequest_ok`), the server that answers it and accepts or does not (`Srv.handleAarq_ok`), and
the client that takes the AARE (`Cli.handleAssociateResponse_accepted`).
-/

namespace Dlms

open Ber

variable {σ π : Type} {N M : Nat} {C : CryptoProvider π} {S : ObjectStore σ}

/-- User information that was written under the global key. -/
theorem Info.of_written {p : Protector π} {policy : SecurityPolicy} {own : Option SystemTitle}
    {title : SystemTitle} {tag ciphered : ApduTag} {last value : UInt32} {key plain payload info buf : Bytes}
    {room : Nat} (hnone : policy.isNone = false) (hown : own = some title)
    (hkey : C.authenticationKey p.provider = some key) (hlt : last.toNat < value.toNat)
    (hprotect : p.protectAs C policy.global title value key plain room = .ok payload)
    (hout : SliceWriter.encodeInto (Emit.u8 ciphered.asU8 ++ CipheredService.encode
      ⟨policy.control, value, payload⟩) buf = .ok info) :
    Info C p.provider policy own tag ciphered last plain info value := by
  obtain ⟨-, rfl, -⟩ := SliceWriter.encodeInto_ok hout
  rw [Emit.append_data rfl]
  have hglobal : policy.global.isNone = false := hnone
  have hsame : (Protector.mk p.provider policy.global).protectAs C policy.global title value key plain room =
      .ok payload := hprotect
  exact .covered hnone hown hkey hlt (Protector.protectAs_ok hglobal hsame)

/-- Who protects has a title. -/
theorem Info.named {p : π} {policy : SecurityPolicy} {own : Option SystemTitle} {tag ciphered : ApduTag}
    {last value : UInt32} {plain info : Bytes} (h : Info C p policy own tag ciphered last plain info value)
    (hp : policy.isNone = false) : own ≠ none := by
  cases h with
  | bare hnone =>
    rw [hp] at hnone
    cases hnone
  | covered _ hown =>
    rw [hown]
    exact Option.some_ne_none _

/-! ## What the client asks for -/

section Asking

variable {c c' : ClientSession π N} {config : ClientConfig} {rng : Entropy}

theorem Cli.need_ok {α : Type} {a : Option α} {kind : ErrorKind} {x : α}
    (h : Cli.need a kind c = (.ok x, c')) : a = some x ∧ c' = c := by
  obtain ⟨y, ha, hrun⟩ | ⟨-, hrun⟩ := Cli.need_run a kind c
  · obtain ⟨hx, rfl⟩ := Prod.mk.inj (hrun.symm.trans h)
    exact ⟨ha.trans (congrArg some (Except.ok.inj hx)), rfl⟩
  · cases hrun.symm.trans h

theorem Cli.offeredKey_ok {key : Option Bytes} (h : Cli.offeredKey C config c = (.ok key, c')) :
    c' = c ∧ (key ≠ none ↔ config.security.isNone = false ∧ config.security.dedicated = true) ∧
      ∀ b, key = some b → C.dedicatedKey c.protector.provider = some b := by
  unfold Cli.offeredKey at h
  by_cases hoffer : (!config.security.isNone && config.security.dedicated) = true
  · rw [if_pos hoffer, Prog.gets_bind_run] at h
    obtain ⟨hsome, hded⟩ := Bool.and_eq_true_iff.mp hoffer
    obtain ⟨b, c₁, hneed, hend⟩ := Prog.bind_ok h
    obtain ⟨hb, rfl⟩ := Cli.need_ok hneed
    obtain ⟨hkey, rfl⟩ := Prod.mk.inj hend
    obtain rfl := Except.ok.inj hkey
    refine ⟨rfl, ⟨fun _ => ⟨by simpa using hsome, hded⟩, fun _ => Option.some_ne_none b⟩, ?_⟩
    intro b' hb'
    rwa [← Option.some.inj hb']
  · rw [if_neg hoffer] at h
    obtain ⟨hkey, rfl⟩ := Prod.mk.inj h
    obtain rfl := Except.ok.inj hkey
    refine ⟨rfl, ⟨fun hne => absurd rfl hne, fun hboth => absurd ?_ hoffer⟩, nofun⟩
    rw [hboth.1, hboth.2]
    rfl

/-- The user information of an AARQ. -/
theorem Cli.requestInfo_ok {plain info : Bytes}
    (h : Cli.requestInfo C config plain c = (.ok info, c')) :
    ∃ value trace, c' = { c with invocationCounter := ⟨value⟩, trace } ∧
      Info C c.protector.provider config.security config.systemTitle .initiateRequest
        .gloInitiateRequest c.invocationCounter.last plain info value := by
  unfold Cli.requestInfo at h
  cases hnone : config.security.isNone with
  | true =>
    rw [if_pos hnone] at h
    obtain ⟨hinfo, rfl⟩ := Prod.mk.inj h
    obtain rfl := Except.ok.inj hinfo
    exact ⟨c.invocationCounter.last, c.trace, rfl, .bare hnone⟩
  | false =>
    rw [if_neg (by rw [hnone]; exact Bool.false_ne_true)] at h
    obtain ⟨value, counter, hnext, hrun⟩ | ⟨e, -, hrun⟩ := Cli.nextCounter_run c
    · obtain ⟨rfl, hvalue⟩ := InvocationCounter.next_ok hnext
      rw [Prog.bind_run_ok hrun] at h
      obtain ⟨title, c₁, hneed, h₁⟩ := Prog.bind_ok h
      obtain ⟨htitle, rfl⟩ := Cli.need_ok hneed
      obtain ⟨key, c₂, hneed', h₂⟩ := Prog.bind_ok h₁
      obtain ⟨hkey, rfl⟩ := Cli.need_ok hneed'
      rw [Cli.log, Prog.modify_bind_run, Prog.gets_bind_run] at h₂
      obtain ⟨payload, hpayload, h₃⟩ := Prog.ofExcept_bind_ok h₂
      have htag : ApduTag.initiateRequest.protectedAs .global = some .gloInitiateRequest := rfl
      rw [htag, Cli.need, Prog.pure_bind_run, Cli.encode_run] at h₃
      obtain ⟨hout, rfl⟩ := Prod.mk.inj h₃
      exact ⟨value, _, rfl, .of_written hnone htitle hkey (by omega) hpayload hout⟩
    · rw [Prog.bind_run_error hrun] at h
      cases h

/-- What an AARQ authenticates itself with. -/
theorem Cli.offeredAuthentication_ok {given : Option Bytes}
    (h : Cli.offeredAuthentication config rng c = (.ok given, c')) :
    ∃ challenge, c' = { c with clientChallenge := challenge } ∧
      (config.mechanism.isHighLevel = true → given = some challenge) := by
  unfold Cli.offeredAuthentication at h
  by_cases hhigh : config.mechanism.isHighLevel = true
  · rw [if_pos hhigh] at h
    obtain ⟨challenge, -, h⟩ := Prog.ofExcept_bind_ok h
    rw [Prog.modify_bind_run] at h
    obtain ⟨hgiven, rfl⟩ := Prod.mk.inj h
    exact ⟨challenge, rfl, fun _ => (Except.ok.inj hgiven).symm⟩
  · rw [if_neg hhigh] at h
    obtain ⟨-, rfl⟩ := Prod.mk.inj h
    exact ⟨c.clientChallenge, rfl, fun h => absurd h hhigh⟩

/-- The client `c` asks for an association with the dedicated key `key`, and is `c₁` behind it. -/
structure ClientSession.Proposed (C : CryptoProvider π) (c c₁ : ClientSession π N) (key given : Option Bytes)
    (info : Bytes) : Prop where
  config : c₁.config = c.config
  protector : c₁.protector = c.protector
  replay : c₁.peerReplay = c.peerReplay
  given : c.config.mechanism.isHighLevel = true → given = some c₁.clientChallenge
  offered : key ≠ none ↔ c.config.security.isNone = false ∧ c.config.security.dedicated = true
  held : ∀ b, key = some b → C.dedicatedKey c.protector.provider = some b
  info : Info C c.protector.provider c.config.security c.config.systemTitle .initiateRequest
    .gloInitiateRequest c.invocationCounter.last (Cli.initiateRequest c.config key).data info
    c₁.invocationCounter.last
  wellSized : WellSized (Cli.initiateRequest c.config key)
  short : (Cli.initiateRequest c.config key).data.length ≤ 64

/-- An AARQ that goes out. -/
theorem Cli.associateRequest_ok {room : Nat} {bytes : Bytes}
    (h : Cli.associateRequest C room rng c = (.ok bytes, c')) :
    ∃ key given info, c.Proposed C c' key given info ∧
      (Cli.requestAarq c.config c.applicationContext given info).encode.fault = none ∧
      bytes = (Cli.requestAarq c.config c.applicationContext given info).encode.data := by
  unfold Cli.associateRequest at h
  rw [Prog.gets_bind_run] at h
  by_cases hrefuse : ((!c.config.security.isNone || c.config.mechanism == .highGmac) &&
      c.config.systemTitle.isNone) = true
  · rw [if_pos hrefuse] at h
    cases h
  rw [if_neg hrefuse] at h
  obtain ⟨key, c₁, hkey, h₁⟩ := Prog.bind_ok h
  obtain ⟨rfl, hoffered, hheld⟩ := Cli.offeredKey_ok hkey
  obtain ⟨plain, c₂, hplain, h₂⟩ := Prog.bind_ok h₁
  rw [Cli.encode_run] at hplain
  obtain ⟨hwritten, rfl⟩ := Prod.mk.inj hplain
  obtain ⟨hfault, rfl, hsize⟩ := SliceWriter.encodeInto_ok hwritten
  rw [length_zeros] at hsize
  obtain ⟨info, c₃, hrun, h₃⟩ := Prog.bind_ok h₂
  obtain ⟨value, trace, rfl, hinfo⟩ := Cli.requestInfo_ok hrun
  obtain ⟨given, c₄, hrun', h₄⟩ := Prog.bind_ok h₃
  obtain ⟨challenge, rfl, hgiven⟩ := Cli.offeredAuthentication_ok hrun'
  rw [Prog.gets_bind_run] at h₄
  obtain ⟨aarq, c₅, haarq, h₅⟩ := Prog.bind_ok h₄
  rw [Cli.encode_run] at haarq
  obtain ⟨hwritten', rfl⟩ := Prod.mk.inj haarq
  obtain ⟨hfault', rfl, -⟩ := SliceWriter.encodeInto_ok hwritten'
  rw [Cli.setState, Prog.modify_bind_run] at h₅
  obtain ⟨hbytes, rfl⟩ := Prod.mk.inj h₅
  obtain rfl := Except.ok.inj hbytes
  exact ⟨key, given, info, ⟨rfl, rfl, rfl, hgiven, hoffered, hheld, hinfo, ⟨hfault, by omega⟩, hsize⟩,
    hfault', rfl⟩

/-- It asks for the mechanism of the client. -/
theorem Cli.requestAarq_mechanism (config : ClientConfig) (context : ApplicationContext)
    (given : Option Bytes) (info : Bytes) :
    (Cli.requestAarq config context given info).mechanism = config.mechanism := by
  unfold Aarq.mechanism Cli.requestAarq
  by_cases hnone : config.mechanism = .none
  · rw [if_neg (not_not.mpr hnone), hnone]
    rfl
  · rw [if_pos hnone]
    rfl

theorem Cli.requestAarq_canonical (hmechanism : .fromArc c.config.mechanism.arc = c.config.mechanism)
    (given : Option Bytes) (info : Bytes) :
    (Cli.requestAarq c.config c.applicationContext given info).Canonical := by
  refine ⟨fun x hx => ?_, fun m hm => ?_⟩
  · obtain rfl := Option.some.inj hx
    unfold ClientSession.applicationContext
    cases c.config.referencing <;> cases c.config.security.isNone <;> rfl
  · obtain ⟨-, hm⟩ := Option.ite_none_right_eq_some.mp hm
    rw [← Option.some.inj hm]
    exact hmechanism

/-- A server takes the context of a client for its own where it ciphers as the client does. -/
theorem ServerConfig.Accepts.ciphers {config : ServerConfig} {aarq : Aarq} (h : config.Accepts aarq)
    (hcontext : aarq.context = c.applicationContext) :
    config.security.isNone = c.config.security.isNone := by
  obtain ⟨-, -, hne, -⟩ := h
  rw [hcontext] at hne
  unfold ClientSession.applicationContext at hne
  revert hne
  cases c.config.referencing <;> cases c.config.security.isNone <;> cases config.security.isNone <;> decide

end Asking

/-! ## What the server grants -/

section Granting

variable {s s' t : Server σ π M} {aarq : Aarq}

theorem Srv.need_ok {α : Type} {a : Option α} {kind : ErrorKind} {x : α}
    (h : Srv.need a kind s = (.ok x, t)) : a = some x ∧ t = s := by
  cases a with
  | none => cases h
  | some y =>
    obtain ⟨hx, rfl⟩ := Prod.mk.inj h
    exact ⟨congrArg some (Except.ok.inj hx), rfl⟩

/-- The user information of an AARE. -/
theorem Srv.responseInfo_ok {info : Bytes} (hciphered : s.cipheredAssociation = !s.config.security.isNone)
    (h : Srv.responseInfo C s = (.ok info, t)) :
    ∃ value trace, t = { s with invocationCounter := ⟨value⟩, trace } ∧
      Info C s.protector.provider s.config.security s.config.systemTitle .initiateResponse
        .gloInitiateResponse s.invocationCounter.last (Srv.initiateResponse s).data info value := by
  unfold Srv.responseInfo at h
  rw [Prog.gets_bind_run, Prog.gets_bind_run] at h
  obtain ⟨plain, s₁, hplain, h₁⟩ := Prog.bind_ok h
  rw [Srv.reply_run] at hplain
  obtain ⟨hwritten, rfl⟩ := Prod.mk.inj hplain
  obtain ⟨-, rfl, -⟩ := SliceWriter.encodeInto_ok hwritten
  rw [Prog.gets_bind_run, hciphered] at h₁
  cases hnone : s.config.security.isNone with
  | true =>
    rw [hnone, if_neg (by decide)] at h₁
    obtain ⟨hinfo, rfl⟩ := Prod.mk.inj h₁
    obtain rfl := Except.ok.inj hinfo
    exact ⟨s.invocationCounter.last, s.trace, rfl, .bare hnone⟩
  | false =>
    rw [hnone, if_pos (by decide)] at h₁
    obtain ⟨title, s₂, hneed, h₂⟩ := Prog.bind_ok h₁
    obtain ⟨htitle, rfl⟩ := Srv.need_ok hneed
    obtain ⟨value, s₃, hnext, h₃⟩ := Prog.bind_ok h₂
    obtain ⟨hlt, rfl⟩ := Srv.nextCounter_taken hnext
    obtain ⟨key, s₄, hneed', h₄⟩ := Prog.bind_ok h₃
    obtain ⟨hkey, rfl⟩ := Srv.need_ok hneed'
    rw [Prog.gets_bind_run, Srv.log, Prog.modify_bind_run] at h₄
    obtain ⟨payload, hpayload, h₅⟩ := Prog.ofExcept_bind_ok h₄
    have htag : ApduTag.initiateResponse.protectedAs .global = some .gloInitiateResponse := rfl
    rw [htag, Srv.need, Prog.pure_bind_run, Srv.reply_run] at h₅
    obtain ⟨hout, rfl⟩ := Prod.mk.inj h₅
    exact ⟨value, _, rfl, .of_written hnone htitle hkey hlt hpayload hout⟩

/-- The AARE of an association that is accepted. -/
theorem Srv.acceptAssociation_ok {context : ApplicationContext} {mechanism : AuthMechanism}
    {challenge : Option Bytes} {room : Nat} {bytes : Bytes}
    (hciphered : s.cipheredAssociation = !s.config.security.isNone) (hctx : .fromArc context.arc = context)
    (hmech : .fromArc mechanism.arc = mechanism) (hch : ∀ b, challenge = some b → b.length ≤ 160)
    (h : Srv.acceptAssociation C S context mechanism challenge room s = (.ok bytes, t)) :
    ∃ info value store trace, t = { s with invocationCounter := ⟨value⟩, store, trace } ∧
      Read.fromBytes Aare.decode bytes =
        .ok (Srv.acceptedAare s.config context mechanism challenge info) ∧
      Info C s.protector.provider s.config.security s.config.systemTitle .initiateResponse
        .gloInitiateResponse s.invocationCounter.last (Srv.initiateResponse s).data info value := by
  unfold Srv.acceptAssociation at h
  obtain ⟨info, s₁, hrun, h₁⟩ := Prog.bind_ok h
  have hlen : info.length ≤ 160 := by
    have hi := Srv.responseInfo_informed C s
    rw [hrun] at hi
    cases hi with
    | ok _ _ _ hlen => exact hlen
  obtain ⟨value, trace, rfl, hinfo⟩ := Srv.responseInfo_ok hciphered hrun
  rw [Prog.gets_bind_run, Prog.gets_bind_run, Prog.bind_run_ok (Srv.audit_run ..), Srv.reply_run] at h₁
  obtain ⟨hout, rfl⟩ := Prod.mk.inj h₁
  have hb : Ber.Bounded (Srv.acceptedAare s.config context mechanism challenge info).encode 680 := by
    refine Aare.encode_bounded (n := 160) (by omega) (fun b hb => ?_) hch fun b hb => ?_
    · obtain ⟨title, -, rfl⟩ := Option.map_eq_some_iff.mp hb
      rw [title.length_eq]
      omega
    · rwa [← Option.some.inj hb]
  exact ⟨info, value, _, _, rfl,
    Aare.readBack (Srv.acceptedAare_canonical s.config challenge info hctx hmech) hb (by omega) hout, hinfo⟩

/-- With a dedicated key, where there is one, the protector `p` is `q`. -/
def Protector.Rekeyed (C : CryptoProvider π) (p q : Protector π) : Option Bytes → Prop
  | none => q = p
  | some b => ∃ k, Key.fromSlice b = .ok k ∧ C.setDedicatedKey p.provider k = (.ok (), q.provider) ∧
      q.policy = p.policy.withDedicated true

/-- What the server takes of the user information, where it goes on with it. -/
theorem Srv.takeInitiate_ok {info : Bytes} {room : Nat} {proposed : Conformance} {clientMax : UInt16}
    (hinfo : aarq.userInformation = some info)
    (h : Srv.takeInitiate C S aarq room s = (.ok (.inr (proposed, clientMax)), t)) :
    ∃ opened w ev p trace, Srv.unprotectInitiate C info s =
        (.ok opened, { s with peerReplay := w, trace := s.trace ++ ev }) ∧
      t = { s with peerReplay := w, protector := p, trace } ∧
      ∀ init, (readInitiate (Reader.new opened.plain)).1 = .ok (some init) →
        proposed = init.proposedConformance ∧ clientMax = init.clientMaxReceivePduSize ∧
        s.protector.Rekeyed C p init.dedicatedKey := by
  obtain ⟨w, ev, hstate, -⟩ := Srv.unprotectInitiate_state C s info
  have ended {m : Srv σ π M Bytes} {s' : Server σ π M}
      (h : (m >>= fun r => pure (.inl r) : Srv σ π M (Bytes ⊕ Conformance × UInt16)) s' =
        (.ok (.inr (proposed, clientMax)), t)) : False := by
    obtain ⟨_, _, -, hr⟩ := Prog.bind_ok h
    cases hr
  unfold Srv.takeInitiate at h
  rw [Prog.gets_bind_run, hinfo] at h
  dsimp only at h
  rw [Prog.try'_bind_run] at h
  cases hopen : (Srv.unprotectInitiate C info s).1 with
  | error e =>
    rw [hopen] at h
    dsimp only at h
    split at h
    · simp only [Prog.gets_bind_run, Srv.setState, Prog.modify_bind_run] at h
      rw [Prog.bind_run_ok (Srv.audit_run ..)] at h
      exact (ended h).elim
    · exact (ended h).elim
  | ok opened =>
    rw [hopen, hstate] at h
    dsimp only at h
    have hrun : Srv.unprotectInitiate C info s =
        (.ok opened, { s with peerReplay := w, trace := s.trace ++ ev }) := Prod.ext hopen hstate
    cases hread : (readInitiate (Reader.new opened.plain)).1 with
    | error e =>
      rw [hread] at h
      cases h
    | ok found =>
      rw [hread, Prog.ofExcept_ok, Prog.pure_bind_run] at h
      cases found with
      | none =>
        obtain ⟨-, rfl⟩ := Prod.mk.inj h
        refine ⟨opened, w, ev, s.protector, _, hrun, rfl, fun init hinit => ?_⟩
        rw [hread] at hinit
        cases hinit
      | some init =>
        simp only [Srv.log, Prog.modify_bind_run] at h
        have only {P : InitiateRequest → Prop} (hP : P init) (init' : InitiateRequest)
            (hinit : (readInitiate (Reader.new opened.plain)).1 = .ok (some init')) : P init' := by
          rwa [← Option.some.inj (Except.ok.inj (hread.symm.trans hinit))]
        cases hkey : init.dedicatedKey with
        | none =>
          rw [hkey] at h
          obtain ⟨hout, rfl⟩ := Prod.mk.inj h
          obtain ⟨rfl, rfl⟩ := Prod.mk.inj (Sum.inr.inj (Except.ok.inj hout))
          refine ⟨opened, w, ev, s.protector, _, hrun, rfl, only ⟨rfl, rfl, ?_⟩⟩
          rw [hkey]
          rfl
        | some b =>
          rw [hkey] at h
          dsimp only at h
          obtain ⟨held, s₁, hinstall, h₁⟩ := Prog.bind_ok h
          obtain ⟨e, -, hrun'⟩ | ⟨k, provider, hk, hset, hrun'⟩ | ⟨k, e, provider, -, -, hrun'⟩ :=
            Srv.installDedicated_run C b (({ s with peerReplay := w, trace := s.trace ++ ev } :
              Server σ π M).log (.initiate opened.frame init))
          · cases hrun'.symm.trans hinstall
          · obtain ⟨hheld, rfl⟩ := Prod.mk.inj (hrun'.symm.trans hinstall)
            obtain rfl := Except.ok.inj hheld
            rw [if_pos rfl] at h₁
            obtain ⟨hout, rfl⟩ := Prod.mk.inj h₁
            obtain ⟨rfl, rfl⟩ := Prod.mk.inj (Sum.inr.inj (Except.ok.inj hout))
            refine ⟨opened, w, ev, _, _, hrun, rfl, only ⟨rfl, rfl, ?_⟩⟩
            rw [hkey]
            exact ⟨k, hk, hset, rfl⟩
          · obtain ⟨hheld, rfl⟩ := Prod.mk.inj (hrun'.symm.trans hinstall)
            obtain rfl := Except.ok.inj hheld
            rw [if_neg Bool.false_ne_true] at h₁
            exact (ended h₁).elim

/-- The server `t` accepts what the AARQ asks `s` for, whose user information opens to `opened`, and `bytes`
are its AARE. -/
structure Server.Granted (C : CryptoProvider π) (s t : Server σ π M) (aarq : Aarq) (opened : Opened)
    (w : ReplayWindow) (bytes : Bytes) : Prop where
  config : t.config = s.config
  title : t.clientSystemTitle = s.clientSystemTitle
  replay : t.peerReplay = w
  transfer : t.transfer = s.transfer
  state : t.state = if aarq.mechanism.isHighLevel then .awaitingHlsReply else .associated
  given : aarq.mechanism.isHighLevel = true → aarq.callingAuthenticationValue = some t.clientChallenge
  asked : ∀ init, (readInitiate (Reader.new opened.plain)).1 = .ok (some init) →
    s.protector.Rekeyed C t.protector init.dedicatedKey ∧
    t.negotiated = s.config.conformance.negotiate init.proposedConformance ∧
    t.clientMaxPduSize =
      if init.clientMaxReceivePduSize = 0 then s.config.maxPduSize else init.clientMaxReceivePduSize
  answer : ∃ challenge info, Read.fromBytes Aare.decode bytes =
      .ok (Srv.acceptedAare s.config aarq.context aarq.mechanism challenge info) ∧
    (aarq.mechanism.isHighLevel = true → challenge = some t.serverChallenge ∧
      t.serverChallenge.length ≤ 64) ∧
    Info C t.protector.provider s.config.security s.config.systemTitle .initiateResponse
      .gloInitiateResponse s.invocationCounter.last (Srv.initiateResponse t).data info
      t.invocationCounter.last

/-- A refusal is no association. -/
theorem Srv.refuse_declines {diagnostic : UserDiagnostic} (hd : .fromU8 diagnostic.asU8 = diagnostic) {room : Nat}
    {bytes : Bytes} (h : Srv.refuse S .rejectedPermanent diagnostic room s = (.ok bytes, t)) :
    t.Over ∧ ∀ aare, Read.fromBytes Aare.decode bytes = .ok aare → aare.result ≠ .accepted := by
  obtain ⟨hclosed, -, aare', haare', hno⟩ := Srv.refuse_answer S hd h
  refine ⟨.inl hclosed, fun aare haare => ?_⟩
  obtain rfl := Except.ok.inj (haare.symm.trans haare')
  exact hno

/-- What comes of an AARQ with the context and the mechanism of the server: no association, and no AARE
that accepts one, or what was asked for. -/
theorem Srv.openAssociation_ok {info : Bytes} {room : Nat} {rng : Entropy} {bytes : Bytes}
    (hcanon : aarq.Canonical) (hinfo : aarq.userInformation = some info)
    (hciphered : s.cipheredAssociation = !s.config.security.isNone)
    (h : Srv.openAssociation C S aarq aarq.context aarq.mechanism room rng s = (.ok bytes, t)) :
    (t.Over ∧ ∀ aare, Read.fromBytes Aare.decode bytes = .ok aare → aare.result ≠ .accepted) ∨
    ∃ opened w ev, Srv.unprotectInitiate C info s =
        (.ok opened, { s with peerReplay := w, trace := s.trace ++ ev }) ∧
      s.Granted C t aarq opened w bytes := by
  unfold Srv.openAssociation at h
  obtain ⟨outcome, s₁, htake, h₁⟩ := Prog.bind_ok h
  cases outcome with
  | inl reply =>
    obtain ⟨hreply, rfl⟩ := Prod.mk.inj h₁
    obtain rfl := Except.ok.inj hreply
    have hp := Srv.takeInitiate_proposal C S aarq room s
    have hl := Srv.takeInitiate_looked C S aarq room s
    rw [htake] at hp hl
    cases hp with
    | terminated _ _ hover =>
      refine .inl ⟨hover, fun aare haare => ?_⟩
      cases hl with
      | stale _ _ hhead =>
        rw [Srv.head_of_aare haare] at hhead
        cases hhead
      | refused _ _ aare' _ _ _ haare' hno =>
        obtain rfl := Except.ok.inj (haare.symm.trans haare')
        exact hno
  | inr outcome =>
    obtain ⟨proposed, clientMax⟩ := outcome
    dsimp only at h₁
    rw [Prog.modify_bind_run] at h₁
    by_cases hm : aarq.mechanism.isHighLevel = true ∧ aarq.mechanism ≠ .highGmac
    · rw [if_pos hm] at h₁
      exact .inl (Srv.refuse_declines rfl h₁)
    rw [if_neg hm] at h₁
    obtain ⟨opened, w, ev, p, trace, hopen, rfl, hasked⟩ := Srv.takeInitiate_ok hinfo htake
    refine .inr ⟨opened, w, ev, hopen, ?_⟩
    obtain ⟨challenge, s₂, hstart, h₂⟩ := Prog.bind_ok h₁
    have hs := Srv.startAuthentication_started (Server.keepNegotiated proposed clientMax
      { s with peerReplay := w, protector := p, trace }) aarq aarq.mechanism rng
    rw [hstart] at hs
    have kept (init : InitiateRequest) (hread : (readInitiate (Reader.new opened.plain)).1 = .ok (some init)) :
        s.protector.Rekeyed C p init.dedicatedKey ∧
        s.config.conformance.negotiate proposed = s.config.conformance.negotiate init.proposedConformance ∧
        (if clientMax = 0 then s.config.maxPduSize else clientMax) =
          if init.clientMaxReceivePduSize = 0 then s.config.maxPduSize
          else init.clientMaxReceivePduSize := by
      obtain ⟨rfl, rfl, hkey⟩ := hasked init hread
      exact ⟨hkey, rfl, rfl⟩
    cases hs with
    | served hlow =>
      obtain ⟨info', value, store, trace', rfl, haare, hinfo'⟩ :=
        Srv.acceptAssociation_ok (by exact hciphered) hcanon.context hcanon.mechanism
          (by intro b hb; cases hb) h₂
      refine ⟨rfl, rfl, rfl, rfl, ?_, ?_, kept, none, info', haare, ?_, hinfo'⟩
      · rw [hlow]
        rfl
      · rw [hlow]
        nofun
      · rw [hlow]
        nofun
    | challenge given challenge hhigh hgiven hfill =>
      have hlen : challenge.length ≤ 64 := by
        rw [rng.length_fill _ _ hfill, Srv.challengeLen]
        omega
      obtain ⟨info', value, store, trace', rfl, haare, hinfo'⟩ :=
        Srv.acceptAssociation_ok (by exact hciphered) hcanon.context hcanon.mechanism
          (by intro b hb; rw [← Option.some.inj hb]; omega) h₂
      refine ⟨rfl, rfl, rfl, rfl, ?_, fun _ => hgiven, kept, some challenge, info', haare,
        fun _ => ⟨rfl, hlen⟩, hinfo'⟩
      rw [hhigh]
      rfl

theorem Server.called_config (s : Server σ π M) (aarq : Aarq) : (s.called C aarq).config = s.config := by
  unfold Server.called
  split
  · unfold Server.takeTitle
    split <;> rfl
  · rfl

theorem Server.called_ciphered (s : Server σ π M) (aarq : Aarq) :
    (s.called C aarq).cipheredAssociation = aarq.context.isCiphered := by
  unfold Server.called
  split
  · unfold Server.takeTitle
    split <;> rfl
  · rfl

/-- What comes of an AARQ. -/
theorem Srv.handleAarq_ok {apdu info : Bytes} {room : Nat} {rng : Entropy} {bytes : Bytes}
    (hd : Read.fromBytes Aarq.decode apdu = .ok aarq) (hinfo : aarq.userInformation = some info)
    (h : Srv.handleAarq C S apdu room rng s = (.ok bytes, t)) :
    (t.Over ∧ ∀ aare, Read.fromBytes Aare.decode bytes = .ok aare → aare.result ≠ .accepted) ∨
    s.config.Accepts aarq ∧ ∃ opened w ev, Srv.unprotectInitiate C info (s.called C aarq) =
        (.ok opened, { s.called C aarq with peerReplay := w, trace := (s.called C aarq).trace ++ ev }) ∧
      (s.called C aarq).Granted C t aarq opened w bytes := by
  by_cases haccepts : s.config.Accepts aarq
  · rw [Srv.handleAarq_accepted C S hd haccepts] at h
    obtain ⟨_, s₁, htitle, h₁⟩ := Prog.bind_ok h
    have heq : s₁ = s.called C aarq := by
      obtain ⟨hn, hrun⟩ | ⟨b, e, -, -, hrun⟩ | ⟨b, title, hb, ht, hrun⟩ :=
        Srv.callingTitle_run aarq (s.begun C aarq)
      · obtain ⟨-, rfl⟩ := Prod.mk.inj (hrun.symm.trans htitle)
        exact Srv.Called.eq C (.inl ⟨hn, rfl⟩)
      · cases hrun.symm.trans htitle
      · obtain ⟨-, rfl⟩ := Prod.mk.inj (hrun.symm.trans htitle)
        exact Srv.Called.eq C (.inr ⟨b, title, hb, ht, rfl⟩)
    rw [heq] at h₁
    split at h₁
    · exact .inl (Srv.refuse_declines rfl h₁)
    · have hciphered : (s.called C aarq).cipheredAssociation =
          !(s.called C aarq).config.security.isNone := by
        obtain ⟨-, -, hne, -⟩ := haccepts
        rw [Server.called_ciphered, Server.called_config]
        exact Bool.eq_not.mpr hne
      obtain hover | hgranted := Srv.openAssociation_ok (Aarq.decoded_canonical hd) hinfo hciphered h₁
      · exact .inl hover
      · exact .inr ⟨haccepts, hgranted⟩
  · obtain ⟨diagnostic, hknown, hrun⟩ : ∃ diagnostic : UserDiagnostic, _ ∧
        Srv.handleAarq C S apdu room rng s = Srv.refuse S .rejectedPermanent diagnostic room _ :=
      Srv.handleAarq_refused C S hd haccepts
    exact .inl (Srv.refuse_declines hknown (hrun.symm.trans h))

end Granting

/-! ## What the client makes of the answer -/

section Answering

variable {c c' : ClientSession π N} {aare : Aare} {apdu info : Bytes} {step : AssociationStep}

/-- An answer that accepts no association. -/
theorem Cli.handleAssociateResponse_declined
    (hno : ∀ aare, Read.fromBytes Aare.decode apdu = .ok aare → aare.result ≠ .accepted)
    (h : Cli.handleAssociateResponse C apdu c = (.ok step, c')) : c'.state = .closed := by
  unfold Cli.handleAssociateResponse at h
  by_cases hexc : apdu.head? = some ApduTag.exceptionResponse.asU8
  · rw [if_pos hexc, Cli.setState, Prog.modify_bind_run] at h
    obtain ⟨e, -, h₁⟩ := Prog.ofExcept_bind_ok h
    obtain ⟨-, rfl⟩ := Prod.mk.inj h₁
    rfl
  · rw [if_neg hexc] at h
    obtain ⟨aare, hd, h₁⟩ := Prog.ofExcept_bind_ok h
    obtain ⟨-, c₁, -, h₂⟩ := Prog.bind_ok h₁
    have hdeclined : aare.isAccepted = false := by
      unfold Aare.isAccepted
      exact beq_eq_false_iff_ne.mpr (hno aare hd)
    rw [Prog.gets_bind_run, Prog.gets_bind_run, hdeclined, if_pos (by decide), Cli.setState,
      Prog.modify_bind_run] at h₂
    obtain ⟨-, rfl⟩ := Prod.mk.inj h₂
    rfl

/-- The protector of a session that is open. -/
def ClientSession.inForce (c : ClientSession π N) : Protector π :=
  if c.config.security.dedicated then c.protector.setDedicated true else c.protector

/-- An answer that accepts what the client asked for. -/
theorem Cli.handleAssociateResponse_accepted (hd : Read.fromBytes Aare.decode apdu = .ok aare)
    (haccepted : aare.result = .accepted) (hctx : aare.applicationContext = some c.applicationContext)
    (hmech : aare.mechanismName = if c.config.mechanism ≠ .none then some c.config.mechanism else none)
    (hinfo : aare.userInformation = some info)
    (h : Cli.handleAssociateResponse C apdu c = (.ok step, c')) :
    ∃ plain w, Cli.unprotectInitiate C info (c.titled aare) =
        (.ok plain, { c.titled aare with peerReplay := w }) ∧
      ∀ r, (readGranted (Reader.new plain)).1 = .ok (.initiated r) →
        ∃ challenge, c' = { c.titled aare with
            peerReplay := w, negotiated := some r, protector := c.inForce, serverChallenge := challenge
            state := if c.config.mechanism.isHighLevel then .authenticatingHls else .associated } ∧
          (c.config.mechanism.isHighLevel = true → aare.respondingAuthenticationValue = some challenge) := by
  unfold Cli.handleAssociateResponse at h
  have hhead : apdu.head? ≠ some ApduTag.exceptionResponse.asU8 := by
    rw [Srv.head_of_aare hd]
    decide
  rw [if_neg hhead, hd, Prog.ofExcept_ok, Prog.pure_bind_run] at h
  obtain ⟨e, htitle, -⟩ | ⟨htitle, -⟩ := Cli.respondingTitle_run c aare
  · rw [Prog.bind_run_error htitle] at h
    cases h
  have hsame : (c.titled aare).config = c.config := (c.titled_abides aare).config
  have hproposed : (c.titled aare).applicationContext = c.applicationContext := by
    unfold ClientSession.applicationContext
    rw [hsame]
  have hprotector : (c.titled aare).protector = c.protector := by
    unfold ClientSession.titled
    split <;> rfl
  have hyes : aare.isAccepted = true := by
    unfold Aare.isAccepted
    rw [haccepted]
    rfl
  have hnamed : aare.mechanismName.any (· != c.config.mechanism) = false := by
    rw [hmech]
    split <;> simp
  have hgiven : ¬ (c.config.mechanism ≠ .none ∧ aare.mechanismName.isNone = true) := by
    rintro ⟨hne, hnone⟩
    rw [hmech, if_pos hne] at hnone
    cases hnone
  rw [Prog.bind_run_ok htitle, Prog.gets_bind_run, Prog.gets_bind_run, hyes, if_neg (by decide), hproposed,
    hsame, hctx, if_neg (by simp), if_neg (by rw [hnamed]; decide), if_neg hgiven] at h
  obtain ⟨granted, c₁, htake, h₁⟩ := Prog.bind_ok h
  unfold Cli.takeGranted at htake
  rw [hinfo] at htake
  obtain ⟨plain, c₂, hopen, h₂⟩ := Prog.bind_ok htake
  have hstate : (Cli.unprotectInitiate C info (c.titled aare)).2 = c₂ := congrArg Prod.snd hopen
  obtain ⟨w, hw⟩ : ∃ w, { c.titled aare with peerReplay := w } = c₂ := ⟨_, hstate⟩
  rw [← hw] at hopen h₂
  refine ⟨plain, w, hopen, fun r hr => ?_⟩
  rw [hr, Prog.ofExcept_ok, Prog.pure_bind_run] at h₂
  dsimp only at h₂
  rw [Prog.modify_bind_run] at h₂
  obtain ⟨hnone, rfl⟩ := Prod.mk.inj h₂
  obtain rfl := Except.ok.inj hnone
  dsimp only at h₁
  unfold Cli.openSession at h₁
  rw [Prog.modify_bind_run] at h₁
  have hopened : (if c.config.security.dedicated then
      { c.titled aare with
        peerReplay := w, negotiated := some r, protector := (c.titled aare).protector.setDedicated true }
      else { c.titled aare with peerReplay := w, negotiated := some r } : ClientSession π N) =
      { c.titled aare with peerReplay := w, negotiated := some r, protector := c.inForce } := by
    unfold ClientSession.inForce
    rw [hprotector]
    split
    · rfl
    · rw [← hprotector]
  rw [hopened] at h₁
  cases hhigh : c.config.mechanism.isHighLevel with
  | false =>
    rw [hhigh, if_neg Bool.false_ne_true] at h₁
    obtain ⟨-, rfl⟩ := Prod.mk.inj h₁
    exact ⟨(c.titled aare).serverChallenge, rfl, nofun⟩
  | true =>
    rw [hhigh, if_pos rfl] at h₁
    obtain ⟨challenge, c₃, hneed, h₂⟩ := Prog.bind_ok h₁
    obtain ⟨hchallenge, rfl⟩ := Cli.need_ok hneed
    split at h₂
    · cases h₂
    · rw [Prog.modify_bind_run, Cli.setState, Prog.modify_bind_run] at h₂
      obtain ⟨-, rfl⟩ := Prod.mk.inj h₂
      exact ⟨challenge, rfl, fun _ => hchallenge⟩

end Answering

end Dlms
