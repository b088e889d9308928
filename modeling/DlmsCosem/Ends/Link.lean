import DlmsCosem.Client.Effects
import DlmsCosem.Security.Delivery
import DlmsCosem.Server.Handshake
import DlmsCosem.Server.Reply

/-!
# Two ends of one association

A client and a server are `Linked` where each opens what the other sends: their protectors have one
policy and keys that invert one another, each knows the title of the other, and neither window has taken
a number that is still to come. A message in either direction keeps them so.
-/

namespace Dlms

variable {σ π : Type} {N M : Nat} {C : CryptoProvider π}

/-! ## What is sent -/

/-- A request that goes out, and the session behind it. -/
theorem Cli.send_sent {apdu : Apdu} {room : Nat} {c c' : ClientSession π N} {bytes : Bytes}
    (hsec : c.protector.policy.isNone = c.config.security.isNone)
    (h : Cli.send C apdu room c = (.ok bytes, c')) :
    apdu.encode.fault = none ∧ ∃ counter trace,
      c' = { c with invocationCounter := counter, trace } ∧
      c.protector.Sent C c.config.systemTitle c.invocationCounter.last apdu.encode.data bytes
        counter.last := by
  unfold Cli.send at h
  obtain ⟨plain, c₁, hplain, h⟩ := Prog.bind_ok h
  rw [Cli.encode_run] at hplain
  obtain ⟨hwritten, rfl⟩ := Prod.mk.inj hplain
  obtain ⟨hfault, rfl, -⟩ := SliceWriter.encodeInto_ok hwritten
  obtain ⟨bytes', c₂, hsend, h⟩ := Prog.bind_ok h
  obtain ⟨hbytes, rfl⟩ := Prod.mk.inj h
  obtain rfl := Except.ok.inj hbytes
  refine ⟨hfault, ?_⟩
  unfold Cli.sendPlain at hsend
  rw [Prog.gets_bind_run] at hsend
  cases hnone : c.config.security.isNone with
  | true =>
    rw [if_pos hnone, Cli.encode_run] at hsend
    obtain ⟨hout, rfl⟩ := Prod.mk.inj hsend
    obtain ⟨-, rfl, -⟩ := SliceWriter.encodeInto_ok hout
    rw [Emit.bytes_data]
    exact ⟨c.invocationCounter, _, rfl, .bare (hsec.trans hnone)⟩
  | false =>
    rw [if_neg (by rw [hnone]; exact Bool.false_ne_true)] at hsend
    obtain ⟨title, htitle, hneed⟩ | ⟨-, hneed⟩ :=
      Cli.need_run c.config.systemTitle .unexpectedMessage c
    · rw [Prog.bind_run_ok hneed] at hsend
      obtain ⟨value, counter, hnext, hrun⟩ | ⟨e, -, hrun⟩ := Cli.nextCounter_run c
      · obtain ⟨rfl, hvalue⟩ := InvocationCounter.next_ok hnext
        rw [Prog.bind_run_ok hrun, Prog.gets_bind_run, Prog.gets_bind_run, Cli.log,
          Prog.modify_bind_run, Prog.ofExcept_run] at hsend
        obtain ⟨hout, rfl⟩ := Prod.mk.inj hsend
        have hlt : c.invocationCounter.last.toNat < value.toNat := by omega
        exact ⟨⟨value⟩, _, rfl, .covered (hsec.trans hnone) hlt ⟨_, room, htitle, rfl, rfl, rfl, hout⟩⟩
      · rw [Prog.bind_run_error hrun] at hsend
        cases hsend
    · rw [Prog.bind_run_error hneed] at hsend
      cases hsend

theorem Srv.nextCounter_taken {s s' : Server σ π M} {value : UInt32}
    (h : Srv.nextCounter s = (.ok value, s')) : s.invocationCounter.last.toNat < value.toNat ∧
      s' = { s with invocationCounter := ⟨value⟩, trace := s.trace ++ [.counter value] } := by
  unfold nextCounter at h
  rw [Prog.gets_bind_run] at h
  cases hnext : s.invocationCounter.next with
  | error e =>
    rw [hnext] at h
    cases h
  | ok r =>
    obtain ⟨value', counter⟩ := r
    obtain ⟨rfl, hvalue⟩ := InvocationCounter.next_ok hnext
    rw [hnext] at h
    obtain ⟨hv, rfl⟩ := Prod.mk.inj h
    obtain rfl := Except.ok.inj hv
    exact ⟨by omega, rfl⟩

/-- A reply that goes out, and the server behind it. -/
theorem Srv.send_sent {apdu : Apdu} {room : Nat} {s s' : Server σ π M} {bytes : Bytes}
    (hsec : s.protector.policy.isNone = s.config.security.isNone)
    (h : Srv.send C apdu room s = (.ok bytes, s')) :
    apdu.encode.fault = none ∧ bytes.length ≤ s.clientMaxPduSize.toNat ∧ ∃ scratch counter trace,
      s' = { s with scratch, invocationCounter := counter, trace } ∧
      s.protector.Sent C s.config.systemTitle s.invocationCounter.last apdu.encode.data bytes
        counter.last := by
  unfold Srv.send at h
  obtain ⟨plain, s₁, hplain, h⟩ := Prog.bind_ok h
  obtain ⟨err, scratch, hrun, -⟩ | ⟨scratch, hrun, hfault, -⟩ := Srv.encodeScratch_run apdu.encode s
  · rw [hrun] at hplain
    cases hplain
  · obtain ⟨hdata, rfl⟩ := Prod.mk.inj (hrun.symm.trans hplain)
    obtain rfl := Except.ok.inj hdata
    have hfits {n : Nat} {t t' : Server σ π M} (hcheck : Srv.checkFits n t = (.ok (), t')) :
        t' = t ∧ n ≤ t.clientMaxPduSize.toNat := by
      rw [Srv.checkFits_run] at hcheck
      obtain ⟨hcheck, rfl⟩ := Prod.mk.inj hcheck
      split at hcheck
      · cases hcheck
      · exact ⟨rfl, by omega⟩
    rw [Prog.gets_bind_run] at h
    refine ⟨hfault, ?_⟩
    cases hnone : s.config.security.isNone with
    | true =>
      rw [if_pos hnone] at h
      obtain ⟨_, s₂, hcheck, h⟩ := Prog.bind_ok h
      obtain ⟨rfl, hle⟩ := hfits hcheck
      rw [Srv.reply_run] at h
      obtain ⟨hout, rfl⟩ := Prod.mk.inj h
      obtain ⟨-, rfl, -⟩ := SliceWriter.encodeInto_ok hout
      rw [Emit.bytes_data]
      exact ⟨hle, scratch, s.invocationCounter, s.trace, rfl, .bare (hsec.trans hnone)⟩
    | false =>
      rw [if_neg (by rw [hnone]; exact Bool.false_ne_true)] at h
      cases htitle : s.config.systemTitle with
      | none =>
        simp only [htitle, Srv.need, Prog.throw_bind_run] at h
        cases h
      | some title =>
        simp only [htitle, Srv.need, Prog.pure_bind_run] at h
        obtain ⟨value, s₂, hnext, h⟩ := Prog.bind_ok h
        obtain ⟨hlt, rfl⟩ := nextCounter_taken hnext
        rw [Prog.gets_bind_run, Prog.gets_bind_run, Srv.log, Prog.modify_bind_run] at h
        obtain ⟨out, hout, h⟩ := Prog.ofExcept_bind_ok h
        obtain ⟨_, s₃, hcheck, h⟩ := Prog.bind_ok h
        obtain ⟨rfl, hle⟩ := hfits hcheck
        obtain ⟨hbytes, rfl⟩ := Prod.mk.inj h
        obtain rfl := Except.ok.inj hbytes
        exact ⟨hle, scratch, ⟨value⟩, _, rfl, .covered (hsec.trans hnone) hlt
          ⟨_, room, rfl, rfl, rfl, rfl, hout⟩⟩

/-! ## Two ends -/

/-- The plain APDU has a tag that needs no wrapper. -/
def Bare (plain : Bytes) : Prop := ∃ tag : ApduTag, plain.head? = some tag.asU8 ∧ tag.bare

/-- Each end opens what the other sends. -/
structure Linked (C : CryptoProvider π) (c : ClientSession π N) (s : Server σ π M) : Prop where
  client : c.protector.policy.isNone = c.config.security.isNone
  server : s.protector.policy.isNone = s.config.security.isNone
  same : s.protector.policy.isNone = c.protector.policy.isNone
  requests : c.protector.policy.isNone = false → Channel C c.protector s.protector
    c.config.systemTitle s.clientSystemTitle c.invocationCounter.last s.peerReplay
  answers : s.protector.policy.isNone = false → Channel C s.protector c.protector
    s.config.systemTitle c.serverSystemTitle s.invocationCounter.last c.peerReplay

namespace Linked

variable {c c' : ClientSession π N} {s s' : Server σ π M} {plain bytes : Bytes}

/-- What a client does on its own. -/
theorem of_client (h : Linked C c s) (hconfig : c'.config = c.config)
    (hprotector : c'.protector = c.protector) (htitle : c'.serverSystemTitle = c.serverSystemTitle)
    (hreplay : c'.peerReplay = c.peerReplay)
    (hcounter : c.invocationCounter.last.toNat ≤ c'.invocationCounter.last.toNat) : Linked C c' s where
  client := by rw [hprotector, hconfig, h.client]
  server := h.server
  same := by rw [hprotector, h.same]
  requests hp := by
    rw [hprotector, hconfig]
    rw [hprotector] at hp
    exact (h.requests hp).mono hcounter
  answers hp := by
    rw [hprotector, htitle, hreplay]
    exact h.answers hp

/-- What a server does on its own. -/
theorem of_server (h : Linked C c s) (hconfig : s'.config = s.config)
    (hprotector : s'.protector = s.protector) (htitle : s'.clientSystemTitle = s.clientSystemTitle)
    (hreplay : s'.peerReplay = s.peerReplay)
    (hcounter : s.invocationCounter.last.toNat ≤ s'.invocationCounter.last.toNat) : Linked C c s' where
  client := h.client
  server := by rw [hprotector, hconfig, h.server]
  same := by rw [hprotector, h.same]
  requests hp := by
    rw [hprotector, htitle, hreplay]
    exact h.requests hp
  answers hp := by
    rw [hprotector, hconfig]
    rw [hprotector] at hp
    exact (h.answers hp).mono hcounter

/-- The server takes the protection off a request, where its buffer is long enough. -/
theorem request_received (h : Linked C c s) {value : UInt32}
    (hsent : c.protector.Sent C c.config.systemTitle c.invocationCounter.last plain bytes value)
    (hbare : c.protector.policy.isNone = true → Bare plain)
    (hsize : 5 + c.protector.payloadLen plain < 2 ^ 32) :
    (M < c.protector.payloadLen plain ∧
      ∃ e s', Srv.unprotectInto C bytes s = (.error e, s')) ∨
    c.protector.payloadLen plain ≤ M ∧ ∃ frame w events,
      Srv.unprotectInto C bytes s =
        (.ok ⟨plain, frame⟩, { s with peerReplay := w, trace := s.trace ++ events }) ∧
      Linked (N := N) C { c with invocationCounter := ⟨value⟩ } { s with peerReplay := w } := by
  have hrun : Srv.unprotectInto C bytes s =
      Srv.unprotect C s.protector.policy plainFromClient M bytes s := rfl
  rw [hrun]
  have hpeer : (s.incoming C s.protector.policy plainFromClient).peer = s.clientSystemTitle := rfl
  unfold Srv.unprotect
  obtain ⟨hover, e, t, hopen⟩ | ⟨hroom, frame, t, hopen, hnext⟩ :=
    hsent.received h.requests h.same hbare hsize hpeer rfl rfl M
  · rw [hopen]
    exact .inl ⟨hover, e, _, rfl⟩
  · rw [hopen]
    refine .inr ⟨hroom, frame, t.replay, (frame.map Event.opened).toList, ?_,
      ⟨h.client, h.server, h.same, hnext, fun hp => h.answers hp⟩⟩
    cases frame with
    | none => simp
    | some f => rfl

/-- The client takes the protection off an answer, where its buffer is long enough. -/
theorem answer_received (h : Linked C c s) {value : UInt32}
    (hsent : s.protector.Sent C s.config.systemTitle s.invocationCounter.last plain bytes value)
    (hbare : s.protector.policy.isNone = true → Bare plain)
    (hsize : 5 + s.protector.payloadLen plain < 2 ^ 32) (size : Nat) :
    (size < s.protector.payloadLen plain ∧
      ∃ e c', Cli.unprotectInto C bytes size c = (.error e, c')) ∨
    s.protector.payloadLen plain ≤ size ∧ ∃ w,
      Cli.unprotectInto C bytes size c = (.ok plain, { c with peerReplay := w }) ∧
      Linked (N := N) C { c with peerReplay := w } { s with invocationCounter := ⟨value⟩ } := by
  have hrun : Cli.unprotectInto C bytes size c =
      Cli.unprotect C c.protector.policy Cli.plainFromServer size bytes c := rfl
  rw [hrun]
  have hpeer : (c.incoming C c.protector.policy Cli.plainFromServer).peer = c.serverSystemTitle := rfl
  unfold Cli.unprotect
  obtain ⟨hover, e, t, hopen⟩ | ⟨hroom, frame, t, hopen, hnext⟩ :=
    hsent.received h.answers h.same.symm hbare hsize hpeer rfl rfl size
  · rw [hopen]
    exact .inl ⟨hover, e, _, rfl⟩
  · rw [hopen]
    exact .inr ⟨hroom, t.replay, rfl, ⟨h.client, h.server, h.same, fun hp => h.requests hp, hnext⟩⟩

end Linked

end Dlms
