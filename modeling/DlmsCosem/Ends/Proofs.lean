import DlmsCosem.Ends.Association
import DlmsCosem.Ends.Exchange
import DlmsCosem.Server.Nonces

/-!
# Proofs

The second half of a handshake of high-level security: the client proves that it has the key over the
challenge of the server, and the server over that of the client. Where neither end fails the association
is open for both or over for both, and two ends that hold the same keys open it (`proofs_link`).
-/

namespace Dlms

open Ber

variable {σ π : Type} {N M : Nat} {C : CryptoProvider π} {S : ObjectStore σ}

/-! ## A proof and who checks it -/

namespace Protector

variable {p q : Protector π} {title : SystemTitle} {counter : UInt32} {key challenge proof : Bytes}

theorem hlsGmacResponse_ok (h : p.hlsGmacResponse C title counter key challenge = .ok proof) :
    ∃ tag, C.gmac p.provider .globalUnicastEncryption p.policy.suite (nonce title counter)
        [[(SecurityControl.new p.policy.suite.id true false).val], key, challenge] = .ok tag ∧
      tag.length = 12 ∧
      proof = (SecurityControl.new p.policy.suite.id true false).val :: beBytes 4 counter.toNat ++ tag := by
  unfold hlsGmacResponse at h
  obtain ⟨tag, htag, hproof⟩ := Result.bind_ok.mp h
  have hmac : C.gmac p.provider .globalUnicastEncryption p.policy.suite (nonce title counter)
      [[(SecurityControl.new p.policy.suite.id true false).val], key, challenge] = .ok tag := by
    unfold gmacWith at htag
    obtain ⟨suite, hsuite, hmac⟩ := Result.bind_ok.mp htag
    have hid : (SecurityControl.new p.policy.suite.id true false).suite = p.policy.suite.id := by
      cases p.policy.suite <;> decide
    rw [hid, SecuritySuite.fromId_id] at hsuite
    obtain rfl := Except.ok.inj hsuite
    exact hmac
  exact ⟨tag, hmac, C.gmac_tag _ _ _ _ _ _ hmac, (Except.ok.inj hproof).symm⟩

theorem length_hlsGmacResponse (h : p.hlsGmacResponse C title counter key challenge = .ok proof) :
    proof.length = 17 := by
  obtain ⟨tag, -, hlen, rfl⟩ := hlsGmacResponse_ok h
  rw [List.length_append, List.length_cons, length_beBytes, hlen]

/-- A proof convinces who has the same key, and knows the title and the challenge. -/
theorem verifyHlsGmac_response (h : p.hlsGmacResponse C title counter key challenge = .ok proof)
    (hsuite : q.policy.suite = p.policy.suite)
    (hmac : ∀ nonce aad, C.gmac q.provider .globalUnicastEncryption p.policy.suite nonce aad =
      C.gmac p.provider .globalUnicastEncryption p.policy.suite nonce aad) :
    q.verifyHlsGmac C title key challenge proof = .ok () := by
  have hlen := length_hlsGmacResponse h
  obtain ⟨tag, htag, -, rfl⟩ := hlsGmacResponse_ok h
  generalize hcontrol : SecurityControl.new p.policy.suite.id true false = control at htag hlen ⊢
  have hbits : (!control.authenticated || control.encrypted || control.broadcastKey || control.compressed ||
      control.suite != q.policy.suite.id) = false ∧ SecuritySuite.fromId control.suite = .ok p.policy.suite := by
    rw [← hcontrol, hsuite]
    cases p.policy.suite <;> exact ⟨by decide, rfl⟩
  have hcounter : UInt32.ofNat (beNat (((control.val :: beBytes 4 counter.toNat ++ tag).drop 1).take 4)) =
      counter := by
    have hfour : (beBytes 4 counter.toNat).length = 4 := length_beBytes ..
    rw [List.cons_append, List.drop_one, List.tail_cons, List.take_left' hfour, beNat_beBytes,
      Nat.mod_eq_of_lt (show counter.toNat < 256 ^ 4 from counter.toNat_lt), UInt32.ofNat_toNat]
  have htail : (control.val :: beBytes 4 counter.toNat ++ tag).drop 5 = tag := by
    have hfive : (control.val :: beBytes 4 counter.toNat).length = 5 := by
      rw [List.length_cons, length_beBytes]
    exact List.drop_left' hfive
  unfold verifyHlsGmac
  rw [if_neg (by rw [hlen]; decide)]
  dsimp only
  rw [hcounter, htail, List.cons_append, List.getD_cons_zero, hbits.1, if_neg Bool.false_ne_true]
  unfold gmacWith
  rw [hbits.2]
  have hsame := (hmac (nonce title counter) [[control.val], key, challenge]).trans htag
  change (C.gmac q.provider .globalUnicastEncryption p.policy.suite (nonce title counter)
    [[control.val], key, challenge] >>= _) = _
  rw [hsame]
  exact if_pos ((constantTimeEq_iff tag tag).mpr rfl)

end Protector

/-! ## The proofs as they are sent -/

/-- The request with the proof of a client. -/
def proofRequest (i : InvokeId) (proof : Bytes) : Apdu :=
  .actionRequest (.normal i Cli.hlsMethod (some (.octetString proof)))

/-- The response with the proof of a server, or with a refusal. -/
def proofResponse (i : InvokeId) : Option Bytes → Apdu
  | some answer => .actionResponse (.normal i ⟨.success, some (.data (.octetString answer))⟩)
  | none => .actionResponse (.normal i ⟨.readWriteDenied, none⟩)

theorem proofRequest_readsBack (i : InvokeId) {proof : Bytes} (h : proof.length = 17) :
    ReadsBack Apdu.decode (proofRequest i proof).encode (proofRequest i proof) := by
  refine Apdu.readsBack_actionRequest (ActionRequest.readsBack_normal i Cli.hlsMethod fun v hv => ?_)
  obtain rfl := Option.some.inj hv
  exact Data.readsBack_octetString (by omega)

theorem proofResponse_readsBack (i : InvokeId) {answer : Option Bytes}
    (h : ∀ b, answer = some b → b.length = 17) :
    ReadsBack Apdu.decode (proofResponse i answer).encode (proofResponse i answer) := by
  cases answer with
  | none =>
    exact Apdu.readsBack_actionResponse (ActionResponse.readsBack_normal i rfl (by intro v hv; cases hv))
  | some b =>
    refine Apdu.readsBack_actionResponse (ActionResponse.readsBack_normal i rfl fun v hv => ?_)
    obtain rfl := Option.some.inj hv
    exact GetDataResult.readsBack_data (Data.readsBack_octetString (by have := h b rfl; omega))

section Sending

variable {c c' : ClientSession π N} {s s' : Server σ π M} {room : Nat} {bytes : Bytes}

/-- The request of a client that proves itself. -/
theorem Cli.hlsReplyRequest_ok (h : Cli.hlsReplyRequest C room c = (.ok bytes, c')) :
    ∃ title key proof i counter invokeId trace, c.config.systemTitle = some title ∧
      C.authenticationKey c.protector.provider = some key ∧
      c.protector.hlsGmacResponse C title counter key c.serverChallenge = .ok proof ∧
      c.invocationCounter.last.toNat ≤ counter.toNat ∧
      Cli.send C (proofRequest i proof) room { c with
        invocationCounter := ⟨counter⟩, invokeId, outstanding := some i, trace } = (.ok bytes, c') := by
  unfold Cli.hlsReplyRequest at h
  rw [Prog.gets_bind_run, Prog.gets_bind_run] at h
  split at h
  · cases h
  split at h
  · cases h
  obtain ⟨title, c₁, hneed, h₁⟩ := Prog.bind_ok h
  obtain ⟨htitle, rfl⟩ := Cli.need_ok hneed
  obtain ⟨value, counter, hnext, hrun⟩ | ⟨e, -, hrun⟩ := Cli.nextCounter_run c₁
  · obtain ⟨rfl, hvalue⟩ := InvocationCounter.next_ok hnext
    rw [Prog.bind_run_ok hrun] at h₁
    obtain ⟨key, c₂, hneed', h₂⟩ := Prog.bind_ok h₁
    obtain ⟨hkey, rfl⟩ := Cli.need_ok hneed'
    rw [Cli.log, Prog.modify_bind_run, Prog.gets_bind_run, Prog.gets_bind_run] at h₂
    obtain ⟨proof, hproof, h₃⟩ := Prog.ofExcept_bind_ok h₂
    exact ⟨title, key, proof, _, value, _, _, htitle, hkey, hproof, by omega, h₃⟩
  · rw [Prog.bind_run_error hrun] at h₁
    cases h₁

/-- What a server makes of the proof of a client: it refuses it and is closed, or answers with a proof of
its own and is open. -/
theorem Srv.handleHlsReply_ok {i : InvokeId} {proof : Bytes}
    (h : Srv.handleHlsReply C i Cli.hlsMethod (some (.octetString proof)) room s = (.ok bytes, s')) :
    ∃ peer key, s.clientSystemTitle = some peer ∧ C.authenticationKey s.protector.provider = some key ∧
      ((∃ e, s.protector.verifyHlsGmac C peer key s.serverChallenge proof = .error e ∧
        Srv.send C (proofResponse i none) room { s with state := .closed } = (.ok bytes, s')) ∨
      s.protector.verifyHlsGmac C peer key s.serverChallenge proof = .ok () ∧
        ∃ title counter answer trace, s.config.systemTitle = some title ∧
          s.protector.hlsGmacResponse C title counter key s.clientChallenge = .ok answer ∧
          s.invocationCounter.last.toNat ≤ counter.toNat ∧
          Srv.send C (proofResponse i (some answer)) room { s with
            state := .associated, invocationCounter := ⟨counter⟩, trace } = (.ok bytes, s')) := by
  have hours : decide (Cli.hlsMethod.classId = 15 ∧ Cli.hlsMethod.methodId = 1) = true := by decide
  have hbytes : (some (Data.octetString proof)).bind Data.asBytes = some proof := rfl
  unfold Srv.handleHlsReply at h
  rw [hours, hbytes] at h
  dsimp only at h
  rw [Prog.gets_bind_run] at h
  obtain ⟨peer, s₁, hneed, h₁⟩ := Prog.bind_ok h
  obtain ⟨hpeer, rfl⟩ := Srv.need_ok hneed
  obtain ⟨key, s₂, hneed', h₂⟩ := Prog.bind_ok h₁
  obtain ⟨hkey, rfl⟩ := Srv.need_ok hneed'
  rw [Prog.gets_bind_run, Prog.gets_bind_run] at h₂
  refine ⟨peer, key, hpeer, hkey, ?_⟩
  cases hverify : s₂.protector.verifyHlsGmac C peer key s₂.serverChallenge proof with
  | error e =>
    rw [hverify] at h₂
    exact .inl ⟨e, rfl, h₂⟩
  | ok _ =>
    rw [hverify] at h₂
    dsimp only at h₂
    rw [Srv.log, Prog.modify_bind_run, Prog.gets_bind_run] at h₂
    obtain ⟨title, s₃, hneed'', h₃⟩ := Prog.bind_ok h₂
    obtain ⟨htitle, rfl⟩ := Srv.need_ok hneed''
    obtain ⟨value, s₄, hnext, h₄⟩ := Prog.bind_ok h₃
    obtain ⟨hlt, rfl⟩ := Srv.nextCounter_taken hnext
    rw [Prog.gets_bind_run, Srv.log, Prog.modify_bind_run] at h₄
    obtain ⟨answer, hanswer, h₅⟩ := Prog.ofExcept_bind_ok h₄
    rw [Srv.log, Prog.modify_bind_run, Srv.setState, Prog.modify_bind_run] at h₅
    exact .inr ⟨rfl, title, value, answer, _, htitle, hanswer, Nat.le_of_lt hlt, h₅⟩

/-- What a client makes of the answer: it is closed by a refusal, and open by a proof. -/
theorem Cli.handleHlsReplyResponse_ok {i : InvokeId} {answer : Option Bytes} {reply : Bytes}
    {step : AssociationStep} {w : ReplayWindow} (hanswer : ∀ b, answer = some b → b.length = 17)
    (hopen : Cli.unprotectInto C reply 512 c =
      (.ok (proofResponse i answer).encode.data, { c with peerReplay := w }))
    (h : Cli.handleHlsReplyResponse C reply c = (.ok step, c')) :
    ∃ trace, c' = { c with
      peerReplay := w, state := if answer.isSome then .associated else .closed, trace } := by
  have hread : Apdu.fromBytes (proofResponse i answer).encode.data = .ok (proofResponse i answer) :=
    (proofResponse_readsBack i hanswer).fromBytes
  unfold Cli.handleHlsReplyResponse at h
  rw [Prog.bind_run_ok hopen, hread, Prog.ofExcept_ok, Prog.pure_bind_run] at h
  cases answer with
  | none =>
    obtain ⟨-, rfl⟩ := Prod.mk.inj h
    exact ⟨_, rfl⟩
  | some b =>
    have hproof : Cli.hlsProof ⟨.success, some (.data (.octetString b))⟩ = some b := rfl
    have hsuccess : (!ActionResult.success.isSuccess) = false := rfl
    unfold proofResponse at h
    dsimp only at h
    rw [hsuccess, if_neg Bool.false_ne_true, hproof] at h
    obtain ⟨b', c₁, hneed, h₁⟩ := Prog.bind_ok h
    obtain ⟨-, rfl⟩ := Cli.need_ok hneed
    rw [Prog.gets_bind_run] at h₁
    obtain ⟨peer, c₂, hneed', h₂⟩ := Prog.bind_ok h₁
    obtain ⟨-, rfl⟩ := Cli.need_ok hneed'
    obtain ⟨key, c₃, hneed'', h₃⟩ := Prog.bind_ok h₂
    obtain ⟨-, rfl⟩ := Cli.need_ok hneed''
    rw [Prog.gets_bind_run, Prog.gets_bind_run] at h₃
    obtain ⟨_, -, h₄⟩ := Prog.ofExcept_bind_ok h₃
    obtain ⟨-, rfl⟩ := Prod.mk.inj h₄
    exact ⟨_, rfl⟩

/-- The answer of a server, with a proof or without, goes on to where it is opened. -/
theorem Linked.proof_answered (h : Linked C c s) {i : InvokeId} {answer : Option Bytes} {reply : Bytes}
    {step : AssociationStep} (hanswer : ∀ b, answer = some b → b.length = 17)
    (hsend : Srv.send C (proofResponse i answer) room s = (.ok reply, s'))
    (hconvinced : Cli.handleHlsReplyResponse C reply c = (.ok step, c')) :
    Linked C c' s' ∧ c'.state = (if answer.isSome then .associated else .closed) ∧
      c'.negotiated = c.negotiated := by
  obtain ⟨-, hfits, scratch, value, trace, rfl, hsent⟩ := Srv.send_sent h.server hsend
  have hpdu := s.clientMaxPduSize.toNat_lt
  have hpayload := hsent.payload_le
  have hhead : (proofResponse i answer).encode.data.head? = some ApduTag.actionResponse.asU8 := by
    cases answer <;> exact Emit.head_u8 ..
  obtain ⟨-, e, c₁, hrun⟩ | ⟨-, w, hrun, hlinked⟩ :=
    h.answer_received hsent (fun _ => ⟨.actionResponse, hhead, by decide⟩) (by omega) 512
  · unfold Cli.handleHlsReplyResponse at hconvinced
    rw [Prog.bind_run_error hrun] at hconvinced
    cases hconvinced
  · obtain ⟨trace', rfl⟩ := Cli.handleHlsReplyResponse_ok hanswer hrun hconvinced
    exact ⟨⟨hlinked.client, hlinked.server, hlinked.same, hlinked.requests, hlinked.answers⟩, rfl, rfl⟩

end Sending

/-! ## The exchange of proofs -/

/-- Where neither end fails the proofs open the association for both or end it for both. They stay linked on
the terms they had, and with the same keys it is open. -/
theorem proofs_link {c c₁ c₂ : ClientSession π N} {s s₁ : Server σ π M} {room room' : Nat} {rng : Entropy}
    {request reply : Bytes} {step : AssociationStep} (h : Linked C c s) (hagreed : s.Agreed)
    (hwaits : s.state = .awaitingHlsReply)
    (hproved : Cli.hlsReplyRequest C room c = (.ok request, c₁))
    (htakes : request.length ≤ s.config.maxPduSize.toNat ∧ request.length ≤ M)
    (hserved : Srv.handle C S request room' rng s = (.ok reply, s₁))
    (hconvinced : Cli.handleHlsReplyResponse C reply c₁ = (.ok step, c₂)) :
    Linked C c₂ s₁ ∧ s₁.Agreed ∧ c₂.negotiated = c.negotiated ∧ s₁.negotiated = s.negotiated ∧
      s₁.clientMaxPduSize = s.clientMaxPduSize ∧
      (c₂.state = .closed ∧ s₁.state = .closed ∨ c₂.state = .associated ∧ s₁.state = .associated) ∧
      (Introduced C c s → c₂.state = .associated) := by
  have hstays : s₁.Agreed := by
    have hstep := Server.step_agreed C S (.handle request room' rng) hagreed
    change (Srv.handle C S request room' rng s).2.Agreed at hstep
    rwa [hserved] at hstep
  obtain ⟨title, key, proof, i, counter, invokeId, trace, htitle, hkey, hproof, hle, hsend⟩ :=
    Cli.hlsReplyRequest_ok hproved
  have hlen := Protector.length_hlsGmacResponse hproof
  have hproving : Linked C { c with
      invocationCounter := ⟨counter⟩, invokeId, outstanding := some i, trace } s :=
    h.of_client rfl rfl rfl rfl hle
  have hserves : ApduTag.actionRequest.Serves := by
    unfold ApduTag.Serves
    decide
  obtain ⟨req, t, rfl, hbrings, hlinked⟩ := hproving.brings hsend (Emit.head_u8 ..) hserves
    (fun _ => ((proofRequest_readsBack i hlen).regains.restores fun b => Iff.rfl).all) (.inr hwaits)
    htakes.1 htakes.2
  obtain ⟨-, value, trace', rfl, -⟩ := Cli.send_sent hproving.client hsend
  rw [hbrings.handle S room' rng] at hserved
  obtain ⟨w, ev, rfl, -⟩ := hbrings.after
  have hhandled : Srv.handleHlsReply C i Cli.hlsMethod (some (.octetString proof)) room'
      { s with peerReplay := w, trace := s.trace ++ ev } = (.ok reply, s₁) := by
    rw [← hserved]
    unfold proofRequest Srv.serveRequest Srv.handleAction
    dsimp only
    rw [Prog.gets_bind_run, if_pos hwaits]
  obtain ⟨peer, key', hpeer, hkey', ⟨e, hverify, hrefused⟩ |
    ⟨-, title', counter', answer, trace'', -, hanswer, hle', hanswered⟩⟩ := Srv.handleHlsReply_ok hhandled
  · have hover : Linked C { c with
        invocationCounter := value, invokeId, outstanding := some i, trace := trace' }
        { s with peerReplay := w, trace := s.trace ++ ev, state := .closed } :=
      hlinked.of_server rfl rfl rfl rfl (Nat.le_refl _)
    obtain ⟨hstill, hclosed, hterms⟩ := hover.proof_answered (by intro b hb; cases hb) hrefused hconvinced
    obtain ⟨-, -, scratch, counter', trace'', rfl, -⟩ := Srv.send_sent hover.server hrefused
    refine ⟨hstill, hstays, hterms, rfl, rfl, .inl ⟨hclosed, rfl⟩, fun hi => ?_⟩
    obtain rfl : peer = title := Option.some.inj (hpeer.symm.trans (hi.caller.trans htitle))
    obtain rfl : key' = key := Option.some.inj (hkey'.symm.trans (hi.authKey.trans hkey))
    have hverified : s.protector.verifyHlsGmac C peer key' c.serverChallenge proof = .ok () :=
      Protector.verifyHlsGmac_response hproof hi.suite hi.mac
    change s.protector.verifyHlsGmac C peer key' s.serverChallenge proof = .error e at hverify
    rw [hi.challenge, hverified] at hverify
    cases hverify
  · have hopen : Linked C { c with
        invocationCounter := value, invokeId, outstanding := some i, trace := trace' }
        { s with
          peerReplay := w, trace := trace'', state := .associated, invocationCounter := ⟨counter'⟩ } :=
      hlinked.of_server rfl rfl rfl rfl hle'
    have hproved' : ∀ b, some answer = some b → b.length = 17 := by
      intro b hb
      rw [← Option.some.inj hb]
      exact Protector.length_hlsGmacResponse hanswer
    obtain ⟨hstill, hassociated, hterms⟩ := hopen.proof_answered hproved' hanswered hconvinced
    obtain ⟨-, -, scratch, counter'', trace₃, rfl, -⟩ := Srv.send_sent hopen.server hanswered
    exact ⟨hstill, hstays, hterms, rfl, rfl, .inr ⟨hassociated, rfl⟩, fun _ => hassociated⟩

/-! ## Proofs of a protected association -/

/-- A client with a challenge of its server. -/
def provingSession : ClientSession SampleKeys 64 :=
  { askingSession with
    state := .authenticatingHls
    serverSystemTitle := grantingServer.config.systemTitle
    clientChallenge := [1, 2, 3, 4, 5, 6, 7, 8]
    serverChallenge := [8, 7, 6, 5, 4, 3, 2, 1] }

/-- The server that gave it. -/
def provingServer : Server Unit SampleKeys 64 :=
  { grantingServer with
    state := .awaitingHlsReply
    clientSystemTitle := some sampleTitle
    clientChallenge := [1, 2, 3, 4, 5, 6, 7, 8]
    serverChallenge := [8, 7, 6, 5, 4, 3, 2, 1] }

theorem proving_linked : Linked sampleProvider provingSession provingServer where
  client := rfl
  server := rfl
  same := rfl
  requests _ := ⟨rfl, rfl, sampleProvider_inverts _ rfl, fun _ h => h, ReplayWindow.new_upTo _ _⟩
  answers _ := ⟨rfl, rfl, sampleProvider_inverts _ rfl, fun _ h => h, ReplayWindow.new_upTo _ _⟩

/-- Each convinces the other. -/
theorem proofs_link_gmac : ∃ (c₂ : ClientSession SampleKeys 64) (s₁ : Server Unit SampleKeys 64),
    Linked sampleProvider c₂ s₁ ∧ s₁.state = .associated ∧ c₂.state = .associated ∧
    s₁.negotiated = provingServer.negotiated := by
  let store : ObjectStore Unit := .constant [0x00] ⟨0x01⟩
  have run {α β : Type} {out : Except Error α × β} {a : α} (h : out.1 = .ok a) : out = (.ok a, out.2) := by
    rw [← h]
  obtain ⟨request, hrequest⟩ : ∃ request, request = (Cli.hlsReplyRequest sampleProvider 64
    provingSession).1.toOption.getD [] := ⟨_, rfl⟩
  obtain ⟨reply, hreply⟩ : ∃ reply, reply = (Srv.handle sampleProvider store request 64 .zeros
    provingServer).1.toOption.getD [] := ⟨_, rfl⟩
  have hproved : Cli.hlsReplyRequest sampleProvider 64 provingSession = (.ok request, _) :=
    run (by rw [hrequest]; decide +kernel)
  have htakes : request.length ≤ provingServer.config.maxPduSize.toNat ∧ request.length ≤ 64 := by
    rw [hrequest]
    decide +kernel
  have hserved : Srv.handle sampleProvider store request 64 .zeros provingServer = (.ok reply, _) :=
    run (by rw [hreply, hrequest]; decide +kernel)
  have hconvinced : Cli.handleHlsReplyResponse sampleProvider reply
      (Cli.hlsReplyRequest sampleProvider 64 provingSession).2 = (.ok .established, _) :=
    run (by rw [hreply, hrequest]; decide +kernel)
  obtain ⟨hlinked, -, -, hterms, -, ⟨hclosed, -⟩ | ⟨hclient, hserver⟩, hopen⟩ :=
    proofs_link proving_linked trivial rfl hproved htakes hserved hconvinced
  · have hassociated := hopen ⟨rfl, rfl, rfl, rfl, fun _ _ => rfl⟩
    rw [hclosed] at hassociated
    cases hassociated
  · exact ⟨_, _, hlinked, hserver, hclient, hterms⟩

end Dlms
