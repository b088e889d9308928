import DlmsCosem.Acse.Lengths
import DlmsCosem.Server.Grants

/-!
# What it takes to answer an AARQ that is accepted

The AARE is written last, when the state of the server is changed already. Its length is known before
(`acceptedAare_size`), and so is what protects the InitiateResponse in it: where both can be had
(`Server.CanAccept`), nothing stands in the way of the AARE (`Ready.answerable`).
-/

namespace Dlms

variable {σ π : Type} {N : Nat}

/-! ## How long the AARE is -/

/-- How long the user information of the AARE is: the InitiateResponse, and what protects it. -/
def ServerConfig.infoLength (config : ServerConfig) : Nat :=
  if config.security.isNone then 14
  else 21 + if config.security.authenticated then SecuritySuite.tagLen else 0

/-- How long the AARE is that accepts an association. -/
def ServerConfig.aareLength (config : ServerConfig) : Nat :=
  tlvLength (11 + 5 + 7 + octetsLength (config.systemTitle.map SystemTitle.bytes) +
    (if config.mechanism = .none then 0 else 4 + 9) +
    (if config.mechanism.isHighLevel then tlvLength (tlvLength (Srv.challengeLen config)) else 0) +
    tlvLength (tlvLength config.infoLength))

namespace Srv

variable (C : CryptoProvider π)

theorem infoLength_le (config : ServerConfig) : config.infoLength ≤ 160 := by
  unfold ServerConfig.infoLength SecuritySuite.tagLen
  split_ifs <;> omega

/-- The length of an AARE comes from the lengths of what is in it. -/
theorem acceptedAare_size {config : ServerConfig} {context : ApplicationContext} {challenge : Option Bytes}
    {info : Bytes} (hchallenge : challenge.map List.length =
      if config.mechanism.isHighLevel then some (challengeLen config) else none)
    (hinfo : info.length = config.infoLength) :
    (acceptedAare config context config.mechanism challenge info).encode.size = config.aareLength := by
  have hbound : Ber.Bounded (acceptedAare config context config.mechanism challenge info).encode 680 := by
    refine Aare.encode_bounded (n := 160) (by omega) (fun b hb => ?_) (fun b hb => ?_) fun b hb => ?_
    · obtain ⟨title, -, rfl⟩ := Option.map_eq_some_iff.mp hb
      rw [title.length_eq]
      omega
    · obtain rfl : challenge = some b := hb
      rw [Option.map_some] at hchallenge
      split at hchallenge
      · rw [Option.some.inj hchallenge, challengeLen]
        omega
      · cases hchallenge
    · rw [← Option.some.inj hb, hinfo]
      exact infoLength_le config
  have hmeasures : Measures (acceptedAare config context config.mechanism challenge info).encode _ :=
    .constructed 0x61 (acceptedAare config context config.mechanism challenge info).measures_body
  have hsize := hmeasures.size ⟨hbound.1, by have := hbound.2; omega⟩
  have hvalue : octetsLength challenge =
      if config.mechanism.isHighLevel then tlvLength (tlvLength (challengeLen config)) else 0 := by
    cases challenge with
    | none =>
      split at hchallenge
      · cases hchallenge
      · rename_i h
        rw [if_neg h]
        rfl
    | some c =>
      rw [Option.map_some] at hchallenge
      split at hchallenge
      · rename_i h
        rw [if_pos h, ← Option.some.inj hchallenge]
        rfl
      · cases hchallenge
  have hresponse : octetsLength (some info) = tlvLength (tlvLength config.infoLength) := by
    rw [← hinfo]
    rfl
  refine hsize.trans (congrArg tlvLength ?_)
  unfold Aare.contentsLength acceptedAare
  dsimp only
  rw [hvalue, hresponse]
  by_cases hm : config.mechanism = .none
  · simp [hm]
  · simp [hm, Nat.add_assoc]

/-- The user information of the AARE has the length it should. -/
theorem responseInfo_length {s t : Server σ π N} {info : Bytes}
    (hciphered : s.cipheredAssociation = !s.config.security.isNone)
    (h : responseInfo C s = (.ok info, t)) : info.length = s.config.infoLength := by
  obtain ⟨hfault, hsize⟩ := initiateResponse_size s
  have hplain : reply (initiateResponse s) 64 s = (.ok (initiateResponse s).data, s) := by
    rw [reply_run, SliceWriter.encodeInto_fits hfault (by rw [hsize]; simp)]
  unfold responseInfo at h
  rw [Prog.gets_bind_run, Prog.gets_bind_run, Prog.bind_run_ok hplain, Prog.gets_bind_run, hciphered] at h
  unfold ServerConfig.infoLength
  cases hnone : s.config.security.isNone with
  | true =>
    rw [hnone, Bool.not_true, if_neg Bool.false_ne_true] at h
    obtain rfl := Except.ok.inj (Prod.mk.inj h).1
    exact hsize
  | false =>
    rw [hnone, Bool.not_false, if_pos rfl] at h
    obtain ⟨title, s₁, -, h⟩ := Prog.bind_ok h
    obtain ⟨counter, s₂, -, h⟩ := Prog.bind_ok h
    obtain ⟨key, s₃, -, h⟩ := Prog.bind_ok h
    rw [Prog.gets_bind_run, log, Prog.modify_bind_run] at h
    obtain ⟨payload, s₄, hpayload, h⟩ := Prog.bind_ok h
    rw [Prog.ofExcept_run] at hpayload
    have hglobal : s.config.security.global.isNone = false := hnone
    have hlen := (Protector.protectAs_ok hglobal (Prod.mk.inj hpayload).1).length
    have hlen : payload.length = 14 + if s.config.security.authenticated then SecuritySuite.tagLen else 0 :=
      hlen.trans (congrArg (· + _) hsize)
    change reply (Emit.u8 ApduTag.gloInitiateResponse.asU8 ++
      CipheredService.encode ⟨s.config.security.control, counter, payload⟩) 160 s₄ = (.ok info, t) at h
    rw [reply_run] at h
    obtain ⟨-, rfl, -⟩ := SliceWriter.encodeInto_ok (Prod.mk.inj h).1
    have hshort : payload.length ≤ 26 := by
      rw [hlen, SecuritySuite.tagLen]
      split <;> omega
    have hlength : Emit.length (5 + payload.length) = Emit.u8 (UInt8.ofNat (5 + payload.length)) :=
      if_pos (by omega)
    rw [Emit.append_data rfl, CipheredService.encode, hlength]
    rw [Emit.append_data rfl, Emit.append_data rfl, Emit.append_data rfl]
    simp [Emit.u32, hlen]
    omega

end Srv

/-! ## What there has to be -/

section Needs

variable (C : CryptoProvider π)

/-- The InitiateRequest in the user information, where that opens to one. -/
def Server.proposal (s : Server σ π N) (aarq : Aarq) : Option InitiateRequest :=
  aarq.userInformation.bind fun info => (Srv.unprotectInitiate C info s).1.toOption.bind fun opened =>
    (readInitiate (Reader.new opened.plain)).1.toOption.join

/-- The services that the server and the client have in common. -/
def Server.granted (s : Server σ π N) (aarq : Aarq) : Conformance :=
  s.config.conformance.negotiate
    (((s.proposal C aarq).map InitiateRequest.proposedConformance).getD .empty)

/-- The provider, once it holds the dedicated key of the InitiateRequest. -/
def Server.keyed (s : Server σ π N) (aarq : Aarq) : π :=
  match ((s.proposal C aarq).bind InitiateRequest.dedicatedKey).map Key.fromSlice with
  | some (.ok key) => (C.setDedicatedKey s.protector.provider key).2
  | _ => s.protector.provider

/-- The AARE can be sent. It fits the buffer, and in a ciphered association there are a title, a number
and keys to protect the InitiateResponse with. -/
structure Server.CanAccept (s : Server σ π N) (aarq : Aarq) (room : Nat) : Prop where
  room : s.config.aareLength ≤ room
  protects : s.config.security.isNone = false → s.invocationCounter.last ≠ 0xFFFFFFFF ∧
    ∃ title key payload, s.config.systemTitle = some title ∧
      C.authenticationKey (s.keyed C aarq) = some key ∧
      Protector.protectAs C ⟨s.keyed C aarq, s.config.security.global⟩ s.config.security.global title
        (s.invocationCounter.last + 1) key
        (Srv.initiateResponse { s with negotiated := s.granted C aarq }).data 128 = .ok payload

/-- User information that opens holds an InitiateRequest that can be used, or says that it is something
else. -/
def Server.CanRead (s : Server σ π N) (aarq : Aarq) : Prop :=
  ∀ info opened, aarq.userInformation = some info → (Srv.unprotectInitiate C info s).1 = .ok opened →
    ¬ Srv.MalformedInitiate opened.plain

end Needs

namespace Srv

variable (C : CryptoProvider π) (S : ObjectStore σ)

/-! ## The server that answers -/

/-- What was read can be used, where its dedicated key has the length of one. -/
theorem readable_of {plain : Bytes} {init : Option InitiateRequest}
    (hread : (readInitiate (Reader.new plain)).1 = .ok init)
    (hkey : ∀ i b, init = some i → i.dedicatedKey = some b → ∃ key, Key.fromSlice b = .ok key) :
    ¬ MalformedInitiate plain := by
  intro h
  cases h with
  | unread e he =>
    rw [hread] at he
    cases he
  | key i b he hb h16 h32 =>
    obtain ⟨key, hk⟩ := hkey i b (Except.ok.inj (hread.symm.trans he)) hb
    unfold Key.fromSlice at hk
    rw [dif_neg (not_or.mpr ⟨h16, h32⟩)] at hk
    cases hk

/-- Where the handshake goes on after the user information, it could be read, and this is what it
proposed. -/
theorem takeInitiate_read {aarq : Aarq} {room : Nat} {s t : Server σ π N} {x : Conformance × UInt16}
    (h : takeInitiate C S aarq room s = (.ok (.inr x), t)) :
    s.CanRead C aarq ∧ s.config.conformance.negotiate x.1 = s.granted C aarq ∧
      t.protector.provider = s.keyed C aarq := by
  unfold takeInitiate at h
  rw [Prog.gets_bind_run] at h
  unfold Server.granted Server.keyed Server.proposal Server.CanRead
  cases hinfo : aarq.userInformation with
  | none =>
    rw [hinfo] at h
    obtain ⟨hx, rfl⟩ := Prod.mk.inj h
    obtain rfl := Sum.inr.inj (Except.ok.inj hx)
    exact ⟨fun _ _ hi => absurd hi (Option.some_ne_none _).symm, rfl, rfl⟩
  | some info =>
    rw [hinfo] at h
    dsimp only at h
    rw [Prog.try'_bind_run] at h
    obtain ⟨w, fs, hu, -⟩ := unprotectInitiate_state C s info
    rw [Option.bind_some]
    cases hr : (unprotectInitiate C info s).1 with
    | error e =>
      rw [hr] at h
      dsimp only at h
      split at h
      · rw [Prog.gets_bind_run] at h
        obtain ⟨_, _, -, h⟩ := Prog.bind_ok h
        obtain ⟨_, _, -, h⟩ := Prog.bind_ok h
        obtain ⟨_, _, -, h⟩ := Prog.bind_ok h
        cases (Prod.mk.inj h).1
      · obtain ⟨_, _, -, h⟩ := Prog.bind_ok h
        cases (Prod.mk.inj h).1
    | ok opened =>
      rw [hr, hu] at h
      dsimp only at h
      have hread (hgood : ¬ MalformedInitiate opened.plain) : ∀ info' opened', some info = some info' →
          (unprotectInitiate C info' s).1 = .ok opened' → ¬ MalformedInitiate opened'.plain := by
        intro info' opened' hi ho
        obtain rfl := Option.some.inj hi
        obtain rfl := Except.ok.inj (hr.symm.trans ho)
        exact hgood
      cases hinit : (readInitiate (Reader.new opened.plain)).1 with
      | error e =>
        rw [hinit] at h
        cases (Prod.mk.inj h).1
      | ok init =>
        rw [hinit, Prog.ofExcept_ok, Prog.pure_bind_run] at h
        simp only [Except.toOption, Option.bind_some, hinit, Option.join_some]
        cases init with
        | none =>
          obtain ⟨hx, rfl⟩ := Prod.mk.inj h
          obtain rfl := Sum.inr.inj (Except.ok.inj hx)
          exact ⟨hread (readable_of hinit fun _ _ hi => absurd hi (Option.some_ne_none _).symm), rfl, rfl⟩
        | some init =>
          simp only [log, Prog.modify_bind_run] at h
          simp only [Option.bind_some, Option.map_some, Option.getD_some]
          cases hkey : init.dedicatedKey with
          | none =>
            rw [hkey] at h
            obtain ⟨hx, rfl⟩ := Prod.mk.inj h
            obtain rfl := Sum.inr.inj (Except.ok.inj hx)
            refine ⟨hread (readable_of hinit fun i b hi hb => ?_), rfl, rfl⟩
            obtain rfl := Option.some.inj hi
            rw [hkey] at hb
            cases hb
          | some key =>
            rw [hkey] at h
            dsimp only at h
            obtain ⟨e, hk, hrun⟩ | ⟨k, provider, hk, hset, hrun⟩ | ⟨k, e, provider, hk, hset, hrun⟩ :=
              installDedicated_run C key ({ s with peerReplay := w, trace := s.trace ++ fs }.log
                (.initiate opened.frame init))
            · rw [Prog.bind_run_error hrun] at h
              cases (Prod.mk.inj h).1
            · rw [Prog.bind_run_ok hrun, if_pos rfl] at h
              obtain ⟨hx, rfl⟩ := Prod.mk.inj h
              obtain rfl := Sum.inr.inj (Except.ok.inj hx)
              rw [Option.map_some, hk]
              refine ⟨hread (readable_of hinit fun i b hi hb => ?_), rfl, (congrArg Prod.snd hset).symm⟩
              obtain rfl := Option.some.inj hi
              obtain rfl := Option.some.inj (hkey.symm.trans hb)
              exact ⟨k, hk⟩
            · rw [Prog.bind_run_ok hrun, if_neg Bool.false_ne_true] at h
              obtain ⟨_, _, -, h⟩ := Prog.bind_ok h
              cases (Prod.mk.inj h).1

/-- The server that writes the AARE: what matters of it comes from the server that looked at the user
information. -/
structure Ready (s s₂ : Server σ π N) (aarq : Aarq) : Prop where
  config : s₂.config = s.config
  ciphered : s₂.cipheredAssociation = !s.config.security.isNone
  counter : s₂.invocationCounter = s.invocationCounter
  provider : s₂.protector.provider = s.keyed C aarq
  negotiated : s₂.negotiated = s.granted C aarq

/-- Where the AARE can be sent, nothing stands in its way. -/
theorem Ready.answerable {s s₂ : Server σ π N} {aarq : Aarq} {context : ApplicationContext}
    {challenge : Option Bytes} {room : Nat} (h : Ready C s s₂ aarq) (hc : s.CanAccept C aarq room)
    (hchallenge : challenge.map List.length =
      if s.config.mechanism.isHighLevel then some (challengeLen s.config) else none) :
    ¬ Unanswerable C s₂ context s.config.mechanism challenge room := by
  have hprotects (hs : s₂.cipheredAssociation = true) := hc.protects (by
    rw [h.ciphered] at hs
    simpa using hs)
  intro hu
  cases hu with
  | title hs hnone =>
    obtain ⟨-, title, -, -, htitle, -⟩ := hprotects hs
    rw [h.config, htitle] at hnone
    cases hnone
  | counter hs hmax =>
    rw [h.counter] at hmax
    exact (hprotects hs).1 hmax
  | key hs hnone =>
    obtain ⟨-, -, key, -, -, hkey, -⟩ := hprotects hs
    rw [h.provider, hkey] at hnone
    cases hnone
  | protection title key e hs htitle hkey he =>
    obtain ⟨-, title', key', payload, htitle', hkey', hpayload⟩ := hprotects hs
    rw [h.config, htitle'] at htitle
    rw [h.provider, hkey'] at hkey
    obtain rfl := Option.some.inj htitle
    obtain rfl := Option.some.inj hkey
    have hplain : initiateResponse s₂ = initiateResponse { s with negotiated := s.granted C aarq } := by
      unfold initiateResponse
      rw [h.config, h.negotiated]
    have hsame : s₂.protector.protectAs C s₂.config.security.global title'
        (s₂.invocationCounter.last + 1) key' (initiateResponse s₂).data 128 = .ok payload := by
      rw [h.config, h.counter, hplain, ← hpayload, ← h.provider]
      rfl
    rw [hsame] at he
    cases he
  | room info hinfo hroom =>
    have hlen : info.length = s₂.config.infoLength :=
      responseInfo_length C (by rw [h.ciphered, h.config]) (Prod.ext hinfo rfl)
    rw [h.config] at hlen hroom
    rw [acceptedAare_size hchallenge hlen] at hroom
    exact absurd hc.room (by omega)

end Srv

end Dlms
