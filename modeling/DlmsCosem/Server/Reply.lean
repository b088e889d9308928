import DlmsCosem.Security.Sealing
import DlmsCosem.Server.Bookkeeping

/-!
# What a reply is

`send` is the way out of every service. It gives a reply exactly when the APDU fits the scratch
buffer, can be wrapped, and does not exceed what the client receives (`send_ok_iff`); what it leaves
is the server with a number taken at most (`Emitted`). Wrapping adds no more than `protectionMax`
to an APDU that has a ciphered tag (`protectApdu_length`).
-/

namespace Dlms

/-- A length takes no more than five bytes. -/
theorem Emit.length_size_le (len : Nat) : (Emit.length len).size ≤ 5 := by
  unfold Emit.length
  dsimp only
  generalize ((beBytes 8 len).findIdx? (· != 0)).getD 7 = first
  split_ifs with h1 h2
  · exact Nat.le_of_lt (by simp [Emit.size])
  · exact Nat.zero_le _
  · rw [Emit.size, Emit.append_data rfl]
    simp
    omega

/-! ## Protection -/

section Protection

variable {π : Type} (C : CryptoProvider π)

/-- The tag has a form of its own for either key set, so no general wrapper is needed. -/
def ApduTag.HasCiphered (t : ApduTag) : Prop :=
  (t.protectedAs .global).isSome = true ∧ (t.protectedAs .dedicated).isSome = true

theorem ApduTag.HasCiphered.start {t : ApduTag} (h : t.HasCiphered) (ctx : Outgoing) :
    ∃ c : ApduTag, ctx.start t = .ok (Emit.u8 c.asU8) := by
  unfold Outgoing.start Outgoing.protection
  split <;> rename_i hs
  · exact ⟨_, rfl⟩
  · split at hs
    · exact absurd hs (Option.isSome_iff_ne_none.mp h.2)
    · exact absurd hs (Option.isSome_iff_ne_none.mp h.1)

/-- What is written before the payload: at most eleven bytes where the tag has a ciphered form. -/
theorem Outgoing.header_length {ctx : Outgoing} {tag : ApduTag} {n : Nat} {bs : Bytes}
    (ht : tag.HasCiphered) (h : ctx.header tag n = .ok bs) : bs.length ≤ 11 := by
  obtain ⟨c, hc⟩ := ht.start ctx
  unfold Outgoing.header at h
  rw [hc] at h
  obtain ⟨hf, rfl, -⟩ := SliceWriter.encodeInto_ok h
  have hlen := Emit.length_size_le (5 + n)
  obtain ⟨-, hrest⟩ := Emit.append_fault_eq_none.mp hf
  obtain ⟨hab, -⟩ := Emit.append_fault_eq_none.mp hrest
  obtain ⟨ha, -⟩ := Emit.append_fault_eq_none.mp hab
  have hsized : Emit.Sized (Emit.length (5 + n)) (Emit.length (5 + n)).size := ⟨ha, rfl⟩
  have := ((Emit.Sized.u8 c.asU8).append ((hsized.append (.u8 ctx.policy.control.val)).append
    (.u32 ctx.invocationCounter))).size
  exact (Nat.le_of_eq this).trans (by omega)

theorem Outgoing.header_total {ctx : Outgoing} {tag : ApduTag} {n : Nat} (ht : tag.HasCiphered)
    (hn : 5 + n < 2 ^ 32) : ∃ bs, ctx.header tag n = .ok bs := by
  obtain ⟨c, hc⟩ := ht.start ctx
  have hsized := (Emit.Sized.u8 c.asU8).append (((Emit.length_sized hn).append
    (.u8 ctx.policy.control.val)).append (.u32 ctx.invocationCounter))
  have hle := Emit.lengthSize_le (5 + n)
  unfold Outgoing.header
  rw [hc]
  exact ⟨_, SliceWriter.encodeInto_fits hsized.fault
    (by rw [hsized.size, length_zeros, headerMax]; omega)⟩

/-- Protection adds no more than the server reckons with. -/
theorem protectApdu_length {p : Protector π} {ctx : Outgoing} {plain out : Bytes} {room : Nat}
    {tag : ApduTag} (htag : plain.head?.bind ApduTag.fromU8 = some tag) (hc : tag.HasCiphered)
    (h : protectApdu C p ctx plain room = .ok out) :
    out.length ≤ plain.length + Server.protectionMax := by
  unfold protectApdu at h
  split at h
  · obtain ⟨-, rfl, -⟩ := SliceWriter.encodeInto_ok h
    simp
  · rw [htag] at h
    dsimp only at h
    cases hk : ctx.authKey with
    | none => rw [hk] at h; cases h
    | some key =>
      rw [hk] at h
      obtain ⟨header, hh, h⟩ := Result.bind_ok.mp h
      have hlen := Outgoing.header_length hc hh
      split at h
      · cases h
      · obtain ⟨payload, hp, h⟩ := Result.bind_ok.mp h
        have hpay := p.protectAs_length C hp
        split at h
        · cases h
        · rw [← Except.ok.inj h, List.length_append, Server.protectionMax]
          rw [SecuritySuite.tagLen] at hpay
          omega

/-- Where the keys are there and there is room, an APDU can be protected. -/
theorem protectApdu_total {p : Protector π} {ctx : Outgoing} {plain key : Bytes} {room : Nat}
    {tag : ApduTag} (htag : plain.head?.bind ApduTag.fromU8 = some tag) (hc : tag.HasCiphered)
    (hk : ctx.authKey = some key) (hs : C.Seals p.provider ctx.policy key)
    (hplain : plain.length < 2 ^ 31) (hroom : plain.length + Server.protectionMax ≤ room) :
    ∃ out, protectApdu C p ctx plain room = .ok out := by
  rw [Server.protectionMax] at hroom
  unfold protectApdu
  cases hnone : ctx.policy.isNone with
  | true =>
    rw [if_pos rfl]
    exact ⟨_, SliceWriter.encodeInto_fits rfl (by simp [Emit.size]; omega)⟩
  | false =>
    rw [if_neg Bool.false_ne_true, htag]
    dsimp only
    rw [hk]
    dsimp only
    have hpay : ctx.payloadLen plain ≤ plain.length + 12 := by
      unfold Outgoing.payloadLen SecuritySuite.tagLen
      split <;> omega
    obtain ⟨header, hh⟩ : ∃ bs, ctx.header tag (ctx.payloadLen plain) = .ok bs :=
      Outgoing.header_total hc (by omega)
    have hlen := Outgoing.header_length hc hh
    obtain ⟨payload, hp, hpl⟩ := p.protectAs_total C ctx.systemTitle ctx.invocationCounter
      plain (room - header.length) hs hnone
      (by change ctx.payloadLen plain ≤ _; omega)
    refine ⟨header ++ payload, ?_⟩
    rw [hh, Result.bind_ok]
    refine ⟨header, rfl, ?_⟩
    rw [if_neg (by omega), Result.bind_ok]
    exact ⟨payload, hp, by rw [if_neg (by rw [hpl]; simp [Outgoing.payloadLen])]; rfl⟩

end Protection

/-- The event records the use of a number. -/
def Event.Numbers : Event → Prop
  | .counter _ | .protecting _ _ => True
  | _ => False

variable {σ π : Type} {N : Nat}

namespace Server

variable (C : CryptoProvider π)

/-- What a server knows about its next message. -/
def outgoing (s : Server σ π N) (systemTitle : SystemTitle) : Outgoing where
  systemTitle
  invocationCounter := s.invocationCounter.last + 1
  authKey := C.authenticationKey s.protector.provider
  policy := s.protector.policy
  generalAllowed := s.negotiated.contains .generalProtection

/-- A reply that holds `plain`, as it stands before its length is checked. -/
inductive Wraps (s : Server σ π N) (plain : Bytes) (room : Nat) : Bytes → Prop
  | bare : s.config.security.isNone = true → plain.length ≤ room → Wraps s plain room plain
  | protect (title : SystemTitle) (bytes : Bytes) : s.config.security.isNone = false →
    s.config.systemTitle = some title → s.invocationCounter.last ≠ 0xFFFFFFFF →
    protectApdu C s.protector (s.outgoing C title) plain room = .ok bytes → Wraps s plain room bytes

/-- Nothing but a number was used up. -/
def Emitted (s t : Server σ π N) : Prop :=
  ∃ scratch counter ev, t = { s with
      scratch, invocationCounter := counter, trace := s.trace ++ ev } ∧
    ∀ e ∈ ev, e.Numbers

theorem Emitted.refl (s : Server σ π N) : Emitted s s :=
  ⟨s.scratch, s.invocationCounter, [], by rw [List.append_nil], by simp⟩

end Server

namespace Srv

theorem audit_run (S : ObjectStore σ) (e : AuditEvent) (s : Server σ π N) :
    audit S e s = (.ok (), { s with store := S.audit s.store e }.log (.store (.audit e))) := rfl

theorem reply_run (e : Emit) (room : Nat) (s : Server σ π N) :
    reply e room s = (SliceWriter.encodeInto e (zeros room), s) := Prog.ofExcept_run ..

/-- Numbers were taken, and nothing else was done. -/
def Counted (s t : Server σ π N) : Prop :=
  ∃ c ev, t = { s with invocationCounter := c, trace := s.trace ++ ev } ∧
    ∀ e ∈ ev, e.Numbers

theorem Counted.refl (s : Server σ π N) : Counted s s :=
  ⟨s.invocationCounter, [], by rw [List.append_nil], by simp⟩

/-- The number was given to the protector. -/
theorem Counted.protecting {s t : Server σ π N} (h : Counted s t) (title : SystemTitle)
    (value : UInt32) : Counted s (t.log (.protecting title value)) := by
  obtain ⟨c, ev, rfl, hev⟩ := h
  refine ⟨c, ev ++ [.protecting title value], by simp [Server.log], fun e he => ?_⟩
  obtain he | he := List.mem_append.mp he
  · exact hev e he
  · rw [List.mem_singleton.mp he]
    trivial

theorem nextCounter_run (s : Server σ π N) :
    (s.invocationCounter.last = 0xFFFFFFFF ∧ ∃ e, nextCounter s = (.error e, s)) ∨
      ∃ t, s.invocationCounter.last ≠ 0xFFFFFFFF ∧
        nextCounter s = (.ok (s.invocationCounter.last + 1), t) ∧ Counted s t := by
  unfold nextCounter InvocationCounter.next
  rw [Prog.gets_bind_run]
  split
  · rename_i h
    exact .inl ⟨h, _, rfl⟩
  · rename_i h
    exact .inr ⟨_, h, rfl, ⟨s.invocationCounter.last + 1⟩, [.counter _], rfl, by simp [Event.Numbers]⟩

variable (C : CryptoProvider π)

theorem authKey_run (s : Server σ π N) :
    (C.authenticationKey s.protector.provider = none ∧ ∃ e, authKey C s = (.error e, s)) ∨
      ∃ key, C.authenticationKey s.protector.provider = some key ∧ authKey C s = (.ok key, s) := by
  unfold authKey
  rw [Prog.gets_bind_run]
  cases C.authenticationKey s.protector.provider with
  | none => exact .inl ⟨rfl, _, rfl⟩
  | some key => exact .inr ⟨key, rfl, rfl⟩

/-- A handler writes to a writer of its own. -/
theorem emit_run (e : Emit) (w : SliceWriter) (s : Server σ π N) :
    (∃ err w', SliceWriter.emit e w = (.error err, w') ∧ emit e w s = (.error err, s)) ∨
      ∃ w', SliceWriter.emit e w = (.ok (), w') ∧ emit e w s = (.ok w', s) := by
  unfold emit onWriter
  match SliceWriter.emit e w with
  | (.error err, w') => exact .inl ⟨err, w', rfl, rfl⟩
  | (.ok (), w') => exact .inr ⟨w', rfl, rfl⟩

/-- A handler's own writer takes what fits it. -/
theorem emit_grown {e : Emit} {n : Nat} {w : SliceWriter} (he : e.Sized n)
    (h : w.pos + n ≤ w.buf.length) (s : Server σ π N) :
    ∃ w', emit e w s = (.ok w', s) ∧ w.Grown w' e.data := by
  obtain ⟨w', hw⟩ := SliceWriter.emit_fits (w := w) he.fault (by rw [he.size]; exact h)
  refine ⟨w', ?_, .of_emit hw⟩
  unfold emit onWriter
  rw [hw]
  rfl

/-- It refuses what does not. -/
theorem emit_full {e : Emit} {n : Nat} {w : SliceWriter} (he : e.Sized n)
    (h : w.buf.length < w.pos + n) (s : Server σ π N) : ∃ err, emit e w s = (.error err, s) := by
  obtain ⟨err, w', -, hrun⟩ | ⟨w', hw, -⟩ := emit_run e w s
  · exact ⟨err, hrun⟩
  · have hle := (SliceWriter.Grown.of_emit hw).pos_le
    have := he.size
    rw [Emit.size] at this
    omega

/-- What was written can be taken back. -/
theorem truncate_grown {w w' : SliceWriter} {bs : Bytes} (h : w.Grown w' bs) (s : Server σ π N) :
    ∃ w₂, truncate w.pos w' s = (.ok w₂, s) ∧ w.Grown w₂ [] := by
  obtain ⟨w₂, hw, hg⟩ := h.truncate
  refine ⟨w₂, ?_, hg⟩
  unfold truncate onWriter
  rw [hw]
  rfl

/-- What the scratch buffer takes. -/
theorem encodeScratch_run (e : Emit) (s : Server σ π N) :
    (∃ err scratch, encodeScratch e s = (.error err, { s with scratch }) ∧
      ¬ (e.fault = none ∧ e.size ≤ N)) ∨
    ∃ scratch, encodeScratch e s = (.ok e.data, { s with scratch }) ∧ e.fault = none ∧ e.size ≤ N := by
  unfold encodeScratch
  match hw : SliceWriter.emit e (SliceWriter.new s.scratch.bytes) with
  | (.error err, w) =>
    refine .inl ⟨err, _, rfl, fun ⟨hf, hs⟩ => ?_⟩
    obtain ⟨w', hw'⟩ := SliceWriter.emit_fits (w := SliceWriter.new s.scratch.bytes) hf
      (by simpa [s.scratch.length_eq] using hs)
    rw [hw] at hw'
    cases hw'
  | (.ok (), w) =>
    obtain ⟨hf, hdata, hpos, hbuf⟩ := SliceWriter.emit_ok hw
    have hle := w.pos_le
    rw [hbuf, hpos, SliceWriter.new_pos, SliceWriter.new_buf, s.scratch.length_eq] at hle
    refine .inr ⟨s.scratch.ofWriter w, ?_, hf, by omega⟩
    change (Except.ok w.asSlice, _) = _
    rw [hdata, SliceWriter.new_asSlice, List.nil_append]

theorem checkFits_run (len : Nat) (s : Server σ π N) :
    checkFits len s = (if s.clientMaxPduSize.toNat < len then
      .error ⟨.bufferTooSmall (len - s.clientMaxPduSize.toNat), 0⟩ else .ok (), s) := by
  unfold checkFits
  rw [Prog.gets_bind_run]
  by_cases h : s.clientMaxPduSize.toNat < len
  · rw [if_pos h, if_pos h]
    rfl
  · rw [if_neg h, if_neg h]
    rfl

/-- How a reply ends: with an error, or with the APDU in its wrapping. -/
inductive Replies (s : Server σ π N) (e : Emit) (room : Nat) :
    Except Error Bytes × Server σ π N → Prop
  | error (err : Error) (t : Server σ π N) : s.Emitted t →
    (e.fault = none → e.size ≤ N → ∀ bytes, s.Wraps C e.data room bytes →
      s.clientMaxPduSize.toNat < bytes.length) → Replies s e room (.error err, t)
  | ok (bytes : Bytes) (t : Server σ π N) : s.Emitted t → e.fault = none → e.size ≤ N →
    s.Wraps C e.data room bytes → bytes.length ≤ s.clientMaxPduSize.toNat →
    Replies s e room (.ok bytes, t)

theorem send_replies (apdu : Apdu) (room : Nat) (s : Server σ π N) :
    Replies C s apdu.encode room (send C apdu room s) := by
  unfold send
  obtain ⟨err, scratch, hrun, hno⟩ | ⟨scratch, hrun, hf, hN⟩ := encodeScratch_run apdu.encode s
  · rw [Prog.bind_run_error hrun]
    refine .error err _ ⟨scratch, s.invocationCounter, [], by simp, by simp⟩ fun hf hN => ?_
    exact absurd ⟨hf, hN⟩ hno
  · rw [Prog.bind_run_ok hrun, Prog.gets_bind_run]
    have hem : s.Emitted { s with scratch } :=
      ⟨scratch, s.invocationCounter, [], by rw [List.append_nil], by simp⟩
    by_cases hnone : s.config.security.isNone = true
    · rw [if_pos hnone]
      have hwraps : ∀ bytes, s.Wraps C apdu.encode.data room bytes →
          bytes = apdu.encode.data ∧ apdu.encode.data.length ≤ room := by
        intro bytes hb
        cases hb with
        | bare _ hroom => exact ⟨rfl, hroom⟩
        | protect _ _ hnone' => rw [hnone] at hnone'; cases hnone'
      have hcheck := checkFits_run apdu.encode.data.length { s with scratch }
      by_cases hfit : s.clientMaxPduSize.toNat < apdu.encode.data.length
      · rw [if_pos hfit] at hcheck
        rw [Prog.bind_run_error hcheck]
        refine .error _ _ hem fun _ _ bytes hb => ?_
        rw [(hwraps bytes hb).1]
        exact hfit
      · rw [if_neg hfit] at hcheck
        rw [Prog.bind_run_ok hcheck, reply, Prog.ofExcept_run]
        cases henc : SliceWriter.encodeInto (Emit.bytes apdu.encode.data) (zeros room) with
        | ok bytes =>
          obtain ⟨-, rfl, hroom⟩ := SliceWriter.encodeInto_ok henc
          rw [Emit.bytes_data] at *
          refine .ok _ _ hem hf hN (.bare hnone (by simpa [Emit.size] using hroom)) (by omega)
        | error e =>
          refine .error e _ hem fun _ _ bytes hb => ?_
          rw [SliceWriter.encodeInto_fits rfl (by simpa [Emit.size] using (hwraps bytes hb).2)] at henc
          cases henc
    · rw [if_neg hnone]
      have hnone : s.config.security.isNone = false := by simpa using hnone
      cases htitle : s.config.systemTitle with
      | none =>
        refine .error _ _ hem fun _ _ bytes hb => ?_
        cases hb with
        | bare h => rw [hnone] at h; cases h
        | protect title _ _ ht => rw [htitle] at ht; cases ht
      | some title =>
        simp only [need, Prog.pure_bind_run]
        have hwraps : ∀ bytes, s.Wraps C apdu.encode.data room bytes →
            s.invocationCounter.last ≠ 0xFFFFFFFF ∧
              protectApdu C s.protector (s.outgoing C title) apdu.encode.data room = .ok bytes := by
          intro bytes hb
          cases hb with
          | bare h => rw [hnone] at h; cases h
          | protect title' _ _ ht hc hp =>
            obtain rfl := Option.some.inj (htitle.symm.trans ht)
            exact ⟨hc, hp⟩
        obtain ⟨hmax, e, hrun⟩ | ⟨s', hmax, hrun, hcount⟩ := nextCounter_run { s with scratch }
        · rw [Prog.bind_run_error hrun]
          exact .error _ _ hem fun _ _ bytes hb => absurd hmax (hwraps bytes hb).1
        · obtain ⟨c₀, ev₀, rfl, -⟩ := id hcount
          obtain ⟨c, ev, ht, hev⟩ := hcount.protecting title (s.invocationCounter.last + 1)
          rw [Prog.bind_run_ok hrun, Prog.gets_bind_run, Prog.gets_bind_run]
          have hem : s.Emitted { s with scratch, invocationCounter := c, trace := s.trace ++ ev } :=
            ⟨scratch, c, ev, rfl, hev⟩
          change Replies C s apdu.encode room ((Prog.ofExcept
            (protectApdu C s.protector (s.outgoing C title) apdu.encode.data room) >>= fun bytes =>
              checkFits bytes.length >>= fun _ => pure bytes) (Server.log _ _))
          rw [ht]
          cases hp : protectApdu C s.protector (s.outgoing C title) apdu.encode.data room with
          | error e =>
            refine .error e _ hem fun _ _ bytes hb => ?_
            rw [(hwraps bytes hb).2] at hp
            cases hp
          | ok bytes =>
            rw [Prog.ofExcept_ok, Prog.pure_bind_run]
            have hcheck := checkFits_run bytes.length
              { s with scratch, invocationCounter := c, trace := s.trace ++ ev }
            by_cases hfit : s.clientMaxPduSize.toNat < bytes.length
            · rw [if_pos hfit] at hcheck
              rw [Prog.bind_run_error hcheck]
              refine .error _ _ hem fun _ _ bytes' hb => ?_
              obtain rfl := Except.ok.inj (hp.symm.trans (hwraps bytes' hb).2)
              exact hfit
            · rw [if_neg hfit] at hcheck
              rw [Prog.bind_run_ok hcheck]
              exact .ok _ _ hem hf hN (.protect title _ hnone htitle hmax hp) (by omega)

/-- When `send` gives a reply. -/
theorem send_ok_iff {apdu : Apdu} {room : Nat} {s : Server σ π N} {bytes : Bytes} :
    (send C apdu room s).1 = .ok bytes ↔ apdu.encode.fault = none ∧ apdu.encode.size ≤ N ∧
      s.Wraps C apdu.encode.data room bytes ∧ bytes.length ≤ s.clientMaxPduSize.toNat := by
  have h := send_replies C apdu room s
  generalize send C apdu room s = out at h ⊢
  cases h with
  | error e t _ hno =>
    refine ⟨nofun, fun ⟨hf, hN, hw, hfit⟩ => ?_⟩
    exact absurd hfit (Nat.not_le.mpr (hno hf hN bytes hw))
  | ok bytes' t _ hf hN hw hfit =>
    constructor
    · intro h
      obtain rfl := Except.ok.inj h
      exact ⟨hf, hN, hw, hfit⟩
    · rintro ⟨-, -, hw', -⟩
      refine congrArg Except.ok ?_
      cases hw with
      | bare hnone =>
        cases hw' with
        | bare => rfl
        | protect _ _ hnone' => rw [hnone] at hnone'; cases hnone'
      | protect title _ hnone ht _ hp =>
        cases hw' with
        | bare hnone' => rw [hnone] at hnone'; cases hnone'
        | protect title' _ _ ht' _ hp' =>
          obtain rfl := Option.some.inj (ht.symm.trans ht')
          exact Except.ok.inj (hp.symm.trans hp')

/-- What `send` leaves. -/
theorem send_emitted (apdu : Apdu) (room : Nat) (s : Server σ π N) :
    s.Emitted (send C apdu room s).2 := by
  have h := send_replies C apdu room s
  generalize send C apdu room s = out at h ⊢
  cases h with
  | error _ _ hem => exact hem
  | ok _ _ hem => exact hem

end Srv

end Dlms
