import DlmsCosem.Server.Initiation
import DlmsCosem.Server.Protection

/-!
# Which associations are granted

An AARQ is granted where it asks for the context and the mechanism of the server, knows the password,
and its user information opens (`Server.Grants`). The AARE says so, and a refusal closes the server and
leaves no dedicated key in force, with two exceptions (`association_exact`): a context that nobody knows
passes for the plain one of short names, and a mechanism that the server does not carry out is refused
when the dedicated key is installed already.
-/

namespace Dlms

variable {σ π : Type} {N : Nat}

/-! ## What is asked for -/

/-- The context of the referencing mode, ciphered where the policy protects. -/
def ServerConfig.context (config : ServerConfig) : ApplicationContext :=
  .forReferencing config.referencing !config.security.isNone

/-- The mechanisms that a server carries out. -/
def AuthMechanism.Served (m : AuthMechanism) : Prop := m = .none ∨ m = .low ∨ m = .highGmac

instance (m : AuthMechanism) : Decidable m.Served := inferInstanceAs (Decidable (_ ∨ _))

/-- The AARQ asks for a context that has no name. -/
def Aarq.Unknown (aarq : Aarq) : Prop := ∃ arc, aarq.context = .other arc

theorem AuthMechanism.served_iff (m : AuthMechanism) :
    m.Served ↔ ¬ (m.isHighLevel = true ∧ m ≠ .highGmac) := by
  cases m <;> simp [Served, isHighLevel]

/-- What the server takes for its own context and mechanism. -/
theorem ServerConfig.accepts_iff {config : ServerConfig} {aarq : Aarq} (h : ¬ aarq.Unknown) :
    config.Accepts aarq ↔ aarq.context = config.context ∧ aarq.mechanism = config.mechanism := by
  have hserves : serves config.referencing = true := by
    cases config.referencing <;> rfl
  unfold Accepts context
  rw [hserves]
  cases hc : aarq.context with
  | other arc => exact absurd ⟨arc, hc⟩ h
  | logicalName | shortName | logicalNameCiphered | shortNameCiphered =>
    cases config.referencing <;> cases config.security.isNone <;>
      simp [ApplicationContext.referencing, ApplicationContext.isLogicalName,
        ApplicationContext.isCiphered, ApplicationContext.forReferencing]

/-- The names in an AARQ that was read are the arcs they came as. -/
theorem Aarq.decoded_canonical {apdu : Bytes} {aarq : Aarq} (hd : Read.fromBytes Aarq.decode apdu = .ok aarq) :
    aarq.Canonical := by
  obtain ⟨r, hr, -⟩ := Read.fromBytes_ok hd
  exact (Aarq.decode_fields (congrArg Prod.fst hr)).canonical

theorem Aarq.Canonical.context {aarq : Aarq} (h : aarq.Canonical) :
    .fromArc aarq.context.arc = aarq.context := by
  unfold Aarq.context
  cases hc : aarq.applicationContext with
  | none => rfl
  | some c => exact h.applicationContext c hc

theorem Aarq.Canonical.mechanism {aarq : Aarq} (h : aarq.Canonical) :
    .fromArc aarq.mechanism.arc = aarq.mechanism := by
  unfold Aarq.mechanism
  cases hm : aarq.mechanismName with
  | none => rfl
  | some m => exact h.mechanismName m hm

theorem ServerConfig.context_known (config : ServerConfig) (arc : UInt8) : config.context ≠ .other arc := by
  unfold context
  cases config.referencing <;> cases config.security.isNone <;> exact ApplicationContext.noConfusion

namespace Server

variable (C : CryptoProvider π)

/-- The server that looks at the user information: it has cleared the association before, and knows who
calls. -/
def called (aarq : Aarq) (s : Server σ π N) : Server σ π N :=
  match aarq.callingApTitle.map SystemTitle.fromSlice with
  | some (.ok title) => (s.begun C aarq).takeTitle title
  | _ => s.begun C aarq

/-- The user information of the AARQ, where it has some, opens, and its dedicated key, where it has one,
can be held. -/
def Opens (s : Server σ π N) (aarq : Aarq) : Prop :=
  ∀ info, aarq.userInformation = some info → ∃ opened, (Srv.unprotectInitiate C info s).1 = .ok opened ∧
    ∀ init b key, (readInitiate (Reader.new opened.plain)).1 = .ok (some init) →
      init.dedicatedKey = some b → Key.fromSlice b = .ok key →
        (C.setDedicatedKey s.protector.provider key).1 = .ok ()

/-- The user information opens to an InitiateRequest with a dedicated key. -/
def BringsKey (s : Server σ π N) (aarq : Aarq) : Prop :=
  ∃ info opened init, aarq.userInformation = some info ∧
    (Srv.unprotectInitiate C info s).1 = .ok opened ∧
    (readInitiate (Reader.new opened.plain)).1 = .ok (some init) ∧ init.dedicatedKey ≠ none

/-- The AARQ asks for what the server is configured for, and shows what it has to. -/
structure Grants (s : Server σ π N) (aarq : Aarq) : Prop where
  context : aarq.context = s.config.context
  mechanism : aarq.mechanism = s.config.mechanism
  served : aarq.mechanism.Served
  knows : s.config.Knows aarq
  opens : (s.called C aarq).Opens C aarq

/-- The AARQ has everything but a context that the server knows. -/
structure TakesUnknown (s : Server σ π N) (aarq : Aarq) : Prop where
  unknown : aarq.Unknown
  accepts : s.config.Accepts aarq
  served : aarq.mechanism.Served
  knows : s.config.Knows aarq
  opens : (s.called C aarq).Opens C aarq

/-- The AARQ has a dedicated key, and a mechanism that the server is configured for and does not carry
out. -/
structure RefusesLate (s : Server σ π N) (aarq : Aarq) : Prop where
  accepts : s.config.Accepts aarq
  unserved : ¬ aarq.mechanism.Served
  opens : (s.called C aarq).Opens C aarq
  key : (s.called C aarq).BringsKey C aarq

end Server

namespace Srv

open Ber

variable (C : CryptoProvider π) (S : ObjectStore σ)

theorem Called.eq {s s₁ : Server σ π N} {aarq : Aarq} (h : Called C s aarq s₁) : s₁ = s.called C aarq := by
  unfold Server.called
  obtain ⟨hn, rfl⟩ | ⟨b, title, hb, ht, rfl⟩ := h
  · rw [hn]
    rfl
  · rw [hb, Option.map_some, ht]

/-! ## Replies that are no AARE -/

theorem readTlv_tag {r r' : Reader} {t : Tlv} (h : readTlv r = (.ok t, r')) : r.rest.head? = some t.tag := by
  obtain ⟨tag, r₁, htag, h⟩ := Prog.bind_ok h
  obtain ⟨hrest, -⟩ := Read.u8_ok htag
  split at h
  · cases h
  · obtain ⟨len, r₂, -, h⟩ := Prog.bind_ok h
    obtain ⟨offset, r₃, -, h⟩ := Prog.bind_ok h
    obtain ⟨value, r₄, -, h⟩ := Prog.bind_ok h
    obtain rfl := Except.ok.inj (Prod.mk.inj h).1
    rw [hrest]
    rfl

theorem head_of_readTlv {bytes : Bytes} {r : Reader} {t : Tlv} (h : readTlv (Reader.new bytes) = (.ok t, r)) :
    bytes.head? = some t.tag := by
  have hhead := readTlv_tag h
  rwa [show (Reader.new bytes).rest = bytes from List.drop_zero ..] at hhead

/-- An AARE begins with its tag. -/
theorem head_of_aare {bytes : Bytes} {aare : Aare} (h : Read.fromBytes Aare.decode bytes = .ok aare) :
    bytes.head? = some 0x61 := by
  obtain ⟨r, hr, -⟩ := Read.fromBytes_ok h
  obtain ⟨outer, r₁, htlv, hr⟩ := Prog.bind_ok hr
  rw [head_of_readTlv htlv]
  split at hr
  · cases hr
  · rename_i htag
    exact congrArg some (by simpa using htag)

/-- So does an AARQ. -/
theorem head_of_aarq {bytes : Bytes} {aarq : Aarq} (h : Read.fromBytes Aarq.decode bytes = .ok aarq) :
    bytes.head? = some 0x60 := by
  obtain ⟨r, hr, -⟩ := Read.fromBytes_ok h
  obtain ⟨outer, r₁, htlv, hr⟩ := Prog.bind_ok hr
  rw [head_of_readTlv htlv]
  split at hr
  · cases hr
  · rename_i htag
    exact congrArg some (by simpa using htag)

theorem ExceptionResponse.head_encode (v : ExceptionResponse) :
    (Apdu.exceptionResponse v).encode.data.head? = some 0xD8 := by
  cases v with
  | mk a b c => cases c <;> rfl

theorem counterException_head {n : UInt32} {room : Nat} {s t : Server σ π N} {bytes : Bytes}
    (h : counterException n room s = (.ok bytes, t)) : bytes.head? = some 0xD8 := by
  rw [counterException, reply_run] at h
  obtain ⟨-, rfl, -⟩ := SliceWriter.encodeInto_ok (Prod.mk.inj h).1
  exact ExceptionResponse.head_encode _

/-- An exception has no ciphered form. -/
theorem start_exception {ctx : Outgoing} {start : Emit} (h : ctx.start .exceptionResponse = .ok start) :
    start.data.head? = some 0xDB ∨ start.data.head? = some 0xDC := by
  have hnone : ApduTag.exceptionResponse.protectedAs ctx.protection = none := by
    unfold Outgoing.protection
    split <;> rfl
  unfold Outgoing.start at h
  rw [hnone] at h
  dsimp only at h
  split at h
  · cases h
  · obtain rfl := Except.ok.inj h
    rw [Emit.append_data rfl]
    unfold Outgoing.protection
    split
    · exact .inr rfl
    · exact .inl rfl

/-- Under protection an exception stands in a general wrapper. -/
theorem protectApdu_exception {p : Protector π} {ctx : Outgoing} {plain out : Bytes} {room : Nat}
    (hp : plain.head? = some 0xD8) (h : protectApdu C p ctx plain room = .ok out) :
    out.head? ≠ some 0x61 := by
  have htag : plain.head?.bind ApduTag.fromU8 = some .exceptionResponse := by
    rw [hp]
    rfl
  unfold protectApdu at h
  rw [htag] at h
  split at h
  · obtain ⟨-, rfl, -⟩ := SliceWriter.encodeInto_ok h
    rw [Emit.bytes_data, hp]
    decide
  · dsimp only at h
    split at h
    · cases h
    · obtain ⟨header, hheader, h⟩ := Result.bind_ok.mp h
      obtain ⟨start, hstart, rfl⟩ := Outgoing.header_data hheader
      split at h
      · cases h
      · obtain ⟨payload, -, h⟩ := Result.bind_ok.mp h
        split at h
        · cases h
        · obtain rfl := Except.ok.inj h
          rw [List.append_assoc]
          obtain hhead | hhead := start_exception hstart <;> simp [List.head?_append, hhead]

theorem exception_head {a : StateError} {b : ServiceError} {room : Nat} {s t : Server σ π N}
    {bytes : Bytes} (h : exception C a b room s = (.ok bytes, t)) : bytes.head? ≠ some 0x61 := by
  have hexc := ExceptionResponse.head_encode ⟨a, b, none⟩
  unfold exception at h
  rw [Prog.gets_bind_run, Prog.gets_bind_run] at h
  split at h
  · rw [reply_run] at h
    obtain ⟨-, rfl, -⟩ := SliceWriter.encodeInto_ok (Prod.mk.inj h).1
    rw [hexc]
    decide
  · obtain ⟨-, -, hwraps, -⟩ := (send_ok_iff C).mp (congrArg Prod.fst h)
    cases hwraps with
    | bare =>
      rw [hexc]
      decide
    | protect title key _ _ _ hprotect => exact protectApdu_exception C hexc hprotect

/-! ## A refusal -/

/-- A refusal closes the server, and says that it is one. -/
theorem refuse_answer {diagnostic : UserDiagnostic} (hd : .fromU8 diagnostic.asU8 = diagnostic) {room : Nat}
    {s t : Server σ π N} {bytes : Bytes}
    (h : refuse S .rejectedPermanent diagnostic room s = (.ok bytes, t)) :
    t.state = .closed ∧ t.protector = s.protector ∧
      ∃ aare, Read.fromBytes Aare.decode bytes = .ok aare ∧ aare.result ≠ .accepted := by
  unfold refuse setState at h
  rw [Prog.modify_bind_run, Prog.bind_run_ok (audit_run ..), Prog.gets_bind_run, Prog.gets_bind_run,
    reply_run] at h
  obtain ⟨hbytes, rfl⟩ := Prod.mk.inj h
  let aare : Aare := {
    applicationContext := some (if s.cipheredAssociation then .logicalNameCiphered else .logicalName)
    result := .rejectedPermanent
    diagnostic := .user diagnostic
    respondingApTitle := s.config.systemTitle.map SystemTitle.bytes }
  have hcanon : aare.Canonical := by
    refine ⟨fun c hc => ?_, rfl, fun d heq => ?_, fun m hm => ?_⟩
    · obtain rfl := Option.some.inj hc
      split <;> rfl
    · obtain rfl := Diagnostic.user.inj heq
      exact hd
    · cases hm
  have hb : Bounded aare.encode (3 * 8 + 200) := by
    refine Aare.encode_bounded (by omega) (fun b hb => ?_) (fun b hb => ?_) fun b hb => ?_
    · obtain ⟨title, -, rfl⟩ := Option.map_eq_some_iff.mp hb
      exact title.length_eq.le
    · cases hb
    · cases hb
  exact ⟨rfl, rfl, aare, Aare.readBack hcanon hb (by omega) hbytes, AssociationResult.noConfusion⟩

/-! ## The user information -/

/-- What becomes of the user information: the handshake fails, the client has to catch up with the
counter, it is refused, or it goes on. -/
inductive Looked (s : Server σ π N) (aarq : Aarq) (room : Nat) :
    Except Error (Bytes ⊕ Conformance × UInt16) × Server σ π N → Prop
  | failed (e : Error) (t : Server σ π N) : Looked s aarq room (.error e, t)
  | stale (bytes : Bytes) (t : Server σ π N) : bytes.head? = some 0xD8 →
    Looked s aarq room (.ok (.inl bytes), t)
  | refused (bytes : Bytes) (t : Server σ π N) (aare : Aare) : ¬ s.Opens C aarq → t.state = .closed →
    t.protector.policy = s.protector.policy → Read.fromBytes Aare.decode bytes = .ok aare →
    aare.result ≠ .accepted → Looked s aarq room (.ok (.inl bytes), t)
  | opened (proposed : Conformance × UInt16) (t : Server σ π N) : s.Opens C aarq →
    (s.BringsKey C aarq → t.protector.policy.dedicated = true) →
    (¬ s.BringsKey C aarq → t.protector = s.protector) → Looked s aarq room (.ok (.inr proposed), t)

theorem Looked.ofRefuse {s t : Server σ π N} {aarq : Aarq} {room : Nat} {diagnostic : UserDiagnostic}
    (hd : .fromU8 diagnostic.asU8 = diagnostic) (hopens : ¬ s.Opens C aarq)
    (hpolicy : t.protector.policy = s.protector.policy) :
    Looked C s aarq room ((refuse S .rejectedPermanent diagnostic room >>= fun r => pure (.inl r) :
      Srv σ π N (Bytes ⊕ Conformance × UInt16)) t) := by
  cases hrun : refuse S .rejectedPermanent diagnostic room t with
  | mk r t' =>
    cases r with
    | error e =>
      rw [Prog.bind_run_error hrun]
      exact .failed e t'
    | ok bytes =>
      rw [Prog.bind_run_ok hrun]
      obtain ⟨hclosed, hprotector, aare, haare, hno⟩ := refuse_answer S hd hrun
      exact .refused bytes t' aare hopens hclosed (by rw [hprotector, hpolicy]) haare hno

theorem takeInitiate_looked (aarq : Aarq) (room : Nat) (s : Server σ π N) :
    Looked C s aarq room (takeInitiate C S aarq room s) := by
  unfold takeInitiate
  rw [Prog.gets_bind_run]
  cases hinfo : aarq.userInformation with
  | none =>
    have hnone : ¬ s.BringsKey C aarq := by
      rintro ⟨info, -, -, h, -⟩
      rw [hinfo] at h
      cases h
    exact .opened _ s (fun info h => by rw [hinfo] at h; cases h) (absurd · hnone) fun _ => rfl
  | some info =>
    have heq : ∀ {info'}, aarq.userInformation = some info' → info' = info := fun h =>
      Option.some.inj (h.symm.trans hinfo)
    dsimp only
    rw [Prog.try'_bind_run]
    obtain ⟨w, fs, hu, -⟩ := unprotectInitiate_state C s info
    cases hr : (unprotectInitiate C info s).1 with
    | error e =>
      have hopens : ¬ s.Opens C aarq := by
        intro h
        obtain ⟨opened, hopened, -⟩ := h info hinfo
        rw [hr] at hopened
        cases hopened
      dsimp only
      split
      · simp only [Prog.gets_bind_run, setState, Prog.modify_bind_run]
        rw [Prog.bind_run_ok (audit_run ..)]
        generalize Server.log _ _ = t
        cases hrun : counterException _ room t with
        | mk r t' =>
          cases r with
          | error e =>
            rw [Prog.bind_run_error hrun]
            exact .failed e t'
          | ok bytes =>
            rw [Prog.bind_run_ok hrun]
            exact .stale bytes t' (counterException_head hrun)
      · exact .ofRefuse C S rfl hopens (by rw [hu])
    | ok opened =>
      have hopened : ∀ {opened'}, (unprotectInitiate C info s).1 = .ok opened' → opened' = opened := fun h =>
        Except.ok.inj (h.symm.trans hr)
      dsimp only
      rw [hu]
      cases hinit : (readInitiate (Reader.new opened.plain)).1 with
      | error e => exact .failed e _
      | ok init =>
        cases init with
        | none =>
          have hnone : ¬ s.BringsKey C aarq := by
            rintro ⟨info', opened', init, hi, ho, h, -⟩
            obtain rfl := heq hi
            rw [hopened ho, hinit] at h
            cases h
          refine .opened _ _ (fun info' hi => ?_) (absurd · hnone) fun _ => rfl
          obtain rfl := heq hi
          refine ⟨opened, hr, fun init b key h => ?_⟩
          rw [hinit] at h
          cases h
        | some init =>
          have hsame : ∀ {init'}, (readInitiate (Reader.new opened.plain)).1 = .ok (some init') →
              init' = init := fun h => Option.some.inj (Except.ok.inj (h.symm.trans hinit))
          simp only [Prog.ofExcept_ok, Prog.pure_bind_run, log, Prog.modify_bind_run]
          cases hkey : init.dedicatedKey with
          | none =>
            have hnone : ¬ s.BringsKey C aarq := by
              rintro ⟨info', opened', init', hi, ho, h, hne⟩
              obtain rfl := heq hi
              rw [hopened ho] at h
              rw [hsame h] at hne
              exact hne hkey
            refine .opened _ _ (fun info' hi => ?_) (absurd · hnone) fun _ => rfl
            obtain rfl := heq hi
            refine ⟨opened, hr, fun init' b key h hb => ?_⟩
            rw [hsame h, hkey] at hb
            cases hb
          | some b =>
            have hbrings : s.BringsKey C aarq :=
              ⟨info, opened, init, hinfo, hr, hinit, by rw [hkey]; exact Option.some_ne_none b⟩
            have hopens : ∀ {k}, Key.fromSlice b = .ok k → (s.Opens C aarq ↔
                (C.setDedicatedKey s.protector.provider k).1 = .ok ()) := by
              intro k hk
              constructor
              · intro h
                obtain ⟨opened', ho, hset⟩ := h info hinfo
                rw [hopened ho] at hset
                exact hset init b k hinit hkey hk
              · intro hset info' hi
                obtain rfl := heq hi
                refine ⟨opened, hr, fun init' b' k' h hb hk' => ?_⟩
                rw [hsame h, hkey] at hb
                obtain rfl := Option.some.inj hb
                rwa [← Except.ok.inj (hk.symm.trans hk')]
            dsimp only
            obtain ⟨e, -, hrun⟩ | ⟨k, provider, hk, hset, hrun⟩ | ⟨k, e, provider, hk, hset, hrun⟩ :=
              installDedicated_run C b ({ s with peerReplay := w, trace := s.trace ++ fs }.log
                (.initiate opened.frame init))
            · rw [Prog.bind_run_error hrun]
              exact .failed e _
            · rw [Prog.bind_run_ok hrun]
              exact .opened _ _ ((hopens hk).mpr (congrArg Prod.fst hset)) (fun _ => rfl) (absurd hbrings)
            · rw [Prog.bind_run_ok hrun, if_neg Bool.false_ne_true]
              refine .ofRefuse C S rfl (fun h => ?_) rfl
              have hclash : Except.ok () = Except.error e :=
                ((hopens hk).mp h).symm.trans (congrArg Prod.fst hset)
              cases hclash

/-! ## The whole -/

/-- Once the server looks at the user information: the association is accepted, or refused because the
information does not open, or refused for a mechanism that is not carried out. -/
theorem openAssociation_granted {s t : Server σ π N} {aarq : Aarq} {room : Nat} {rng : Entropy}
    {bytes : Bytes} {aare : Aare} (hcanon : aarq.Canonical)
    (hdedicated : s.protector.policy.dedicated = false)
    (hrun : openAssociation C S aarq aarq.context aarq.mechanism room rng s = (.ok bytes, t))
    (haare : Read.fromBytes Aare.decode bytes = .ok aare) :
    (aare.result = .accepted ∧ s.Opens C aarq ∧ aarq.mechanism.Served) ∨
    (aare.result ≠ .accepted ∧ t.state = .closed ∧
      ((¬ s.Opens C aarq ∧ t.protector.policy.dedicated = false) ∨
        (s.Opens C aarq ∧ ¬ aarq.mechanism.Served ∧
          (t.protector.policy.dedicated = true ↔ s.BringsKey C aarq)))) := by
  have hl := takeInitiate_looked C S aarq room s
  unfold openAssociation at hrun
  obtain ⟨outcome, s₁, htake, hrun⟩ := Prog.bind_ok hrun
  rw [htake] at hl
  cases hl with
  | stale reply _ hhead =>
    obtain ⟨rfl, rfl⟩ : reply = bytes ∧ s₁ = t := by simpa using hrun
    rw [head_of_aare haare] at hhead
    cases hhead
  | refused reply _ aare' hopens hclosed hpolicy haare' hno =>
    obtain ⟨rfl, rfl⟩ : reply = bytes ∧ s₁ = t := by simpa using hrun
    obtain rfl := Except.ok.inj (haare.symm.trans haare')
    refine .inr ⟨hno, hclosed, .inl ⟨hopens, ?_⟩⟩
    rw [hpolicy]
    exact hdedicated
  | opened proposed _ hopens hkey hnone =>
    obtain ⟨proposed, clientMax⟩ := proposed
    dsimp only at hrun
    rw [Prog.modify_bind_run] at hrun
    by_cases hm : aarq.mechanism.isHighLevel = true ∧ aarq.mechanism ≠ .highGmac
    · rw [if_pos hm] at hrun
      obtain ⟨hclosed, hprotector, aare', haare', hno⟩ := refuse_answer S rfl hrun
      obtain rfl := Except.ok.inj (haare.symm.trans haare')
      refine .inr ⟨hno, hclosed, .inr ⟨hopens, fun h => (AuthMechanism.served_iff _).mp h hm, ?_⟩⟩
      rw [hprotector]
      refine ⟨fun h => ?_, hkey⟩
      by_contra hno
      have h : s₁.protector.policy.dedicated = true := h
      rw [hnone hno, hdedicated] at h
      cases h
    · rw [if_neg hm] at hrun
      refine .inl ⟨?_, hopens, (AuthMechanism.served_iff _).mpr hm⟩
      obtain ⟨challenge, s₂, hstart, hrun⟩ := Prog.bind_ok hrun
      have hs := startAuthentication_started (s₁.keepNegotiated proposed clientMax) aarq aarq.mechanism rng
      rw [hstart] at hs
      have hchallenge : ∀ c, challenge = some c → c.length ≤ 160 := by
        intro c hc
        cases hs with
        | served => cases hc
        | challenge given challenge _ _ hfill =>
          obtain rfl := Option.some.inj hc
          rw [rng.length_fill _ _ hfill, challengeLen]
          omega
      have ha := acceptAssociation_accepted C S s₂ room hcanon.context hcanon.mechanism hchallenge
      rw [hrun] at ha
      cases ha with
      | ok _ info _ _ hread =>
        obtain rfl := Except.ok.inj (haare.symm.trans hread)
        rfl

/-- What an AARE that answers an AARQ says, and what is left. -/
theorem handleAarq_granted {s t : Server σ π N} {apdu bytes : Bytes} {aarq : Aarq} {aare : Aare}
    {room : Nat} {rng : Entropy} (hd : Read.fromBytes Aarq.decode apdu = .ok aarq)
    (hrun : handleAarq C S apdu room rng s = (.ok bytes, t))
    (haare : Read.fromBytes Aare.decode bytes = .ok aare) :
    (aare.result = .accepted ∧ s.config.Accepts aarq ∧ s.config.Knows aarq ∧
      (s.called C aarq).Opens C aarq ∧ aarq.mechanism.Served) ∨
    (aare.result ≠ .accepted ∧ t.state = .closed ∧
      ((¬ (s.config.Accepts aarq ∧ s.config.Knows aarq ∧ (s.called C aarq).Opens C aarq) ∧
          t.protector.policy.dedicated = false) ∨
        (s.config.Accepts aarq ∧ (s.called C aarq).Opens C aarq ∧ ¬ aarq.mechanism.Served ∧
          (t.protector.policy.dedicated = true ↔ (s.called C aarq).BringsKey C aarq)))) := by
  have hcanon := Aarq.decoded_canonical hd
  by_cases ha : s.config.Accepts aarq
  · rw [handleAarq_accepted C S hd ha] at hrun
    obtain ⟨u, s₁, htitle, hrun⟩ := Prog.bind_ok hrun
    have hcalled : Called C s aarq s₁ := by
      obtain ⟨hn, h⟩ | ⟨b, e, -, -, h⟩ | ⟨b, title, hb, ht, h⟩ := callingTitle_run aarq (s.begun C aarq)
      · exact .inl ⟨hn, (Prod.mk.inj (htitle.symm.trans h)).2⟩
      · cases (Prod.mk.inj (htitle.symm.trans h)).1
      · exact .inr ⟨b, title, hb, ht, (Prod.mk.inj (htitle.symm.trans h)).2⟩
    have hdedicated := hcalled.cleared.dedicated
    obtain rfl := hcalled.eq
    by_cases hk : s.config.Knows aarq
    · have hpass : ¬ (aarq.mechanism = .low ∧
          (!Protector.constantTimeEq s.config.expected aarq.given) = true) := by
        rintro ⟨hlow, hne⟩
        rw [(Protector.constantTimeEq_iff _ _).mpr (hk hlow).symm] at hne
        cases hne
      rw [if_neg hpass] at hrun
      obtain ⟨hacc, hopens, hserved⟩ | ⟨hno, hclosed, hrest⟩ :=
        openAssociation_granted C S hcanon hdedicated hrun haare
      · exact .inl ⟨hacc, ha, hk, hopens, hserved⟩
      · obtain ⟨hopens, hfalse⟩ | ⟨hopens, hserved, hkey⟩ := hrest
        · exact .inr ⟨hno, hclosed, .inl ⟨fun h => hopens h.2.2, hfalse⟩⟩
        · exact .inr ⟨hno, hclosed, .inr ⟨ha, hopens, hserved, hkey⟩⟩
    · have hfail : aarq.mechanism = .low ∧
          (!Protector.constantTimeEq s.config.expected aarq.given) = true := by
        unfold ServerConfig.Knows at hk
        rw [Classical.not_imp] at hk
        refine ⟨hk.1, ?_⟩
        rw [Bool.not_eq_true', ← Bool.not_eq_true, Protector.constantTimeEq_iff]
        exact fun h => hk.2 h.symm
      rw [if_pos hfail] at hrun
      obtain ⟨hclosed, hprotector, aare', haare', hno⟩ := refuse_answer S rfl hrun
      obtain rfl := Except.ok.inj (haare.symm.trans haare')
      exact .inr ⟨hno, hclosed, .inl ⟨fun h => hk h.2.1, by rw [hprotector]; exact hdedicated⟩⟩
  · obtain ⟨diagnostic, hdiagnostic, hr⟩ := handleAarq_refused C S hd ha
    rw [hr] at hrun
    obtain ⟨hclosed, hprotector, aare', haare', hno⟩ := refuse_answer S hdiagnostic hrun
    obtain rfl := Except.ok.inj (haare.symm.trans haare')
    refine .inr ⟨hno, hclosed, .inl ⟨fun h => ha h.1, ?_⟩⟩
    rw [hprotector]
    exact (Server.begun_cleared aarq s).dedicated

/-- An AARQ that is answered with an AARE went to the handshake. -/
theorem handle_aare {s t : Server σ π N} {apdu bytes : Bytes} {aarq : Aarq} {aare : Aare} {room : Nat}
    {rng : Entropy} (hd : Read.fromBytes Aarq.decode apdu = .ok aarq)
    (hrun : handle C S apdu room rng s = (.ok bytes, t))
    (haare : Read.fromBytes Aare.decode bytes = .ok aare) :
    handleAarq C S apdu room rng s = (.ok bytes, t) := by
  have hhead := head_of_aarq hd
  have hdis := handle_dispatched C S s apdu room rng
  rw [hrun] at hdis
  generalize hout : (Except.ok bytes, t) = out at hdis
  cases hdis with
  | aarq => rfl
  | refused a b => exact absurd (head_of_aare haare) (exception_head C hout.symm)
  | release h =>
    rw [hhead] at h
    cases h
  | request _ hne => exact absurd hhead hne

end Srv

/-- The answer to an AARQ is exact: the AARE accepts if and only if the server grants what was asked for,
and a refusal closes the server and leaves no dedicated key in force. This holds unless the context is one
that nobody knows and everything else fits, or a mechanism that is not carried out comes with a dedicated
key that is installed before it is refused. -/
theorem association_exact (C : CryptoProvider π) (S : ObjectStore σ) {s t : Server σ π N}
    {apdu bytes : Bytes} {aarq : Aarq} {aare : Aare} {room : Nat} {rng : Entropy}
    (hd : Read.fromBytes Aarq.decode apdu = .ok aarq)
    (hrun : Srv.handle C S apdu room rng s = (.ok bytes, t))
    (haare : Read.fromBytes Aare.decode bytes = .ok aare) :
    ((aare.result = .accepted ↔ s.Grants C aarq) ∧
      (aare.result ≠ .accepted → t.state = .closed ∧ t.protector.policy.dedicated = false)) ↔
    ¬ s.TakesUnknown C aarq ∧ ¬ s.RefusesLate C aarq := by
  have hgrants : s.Grants C aarq ↔ ¬ aarq.Unknown ∧ s.config.Accepts aarq ∧ aarq.mechanism.Served ∧
      s.config.Knows aarq ∧ (s.called C aarq).Opens C aarq := by
    constructor
    · rintro ⟨hcontext, hmechanism, hserved, hknows, hopens⟩
      have hknown : ¬ aarq.Unknown := fun ⟨arc, h⟩ => s.config.context_known arc (hcontext.symm.trans h)
      exact ⟨hknown, (ServerConfig.accepts_iff hknown).mpr ⟨hcontext, hmechanism⟩, hserved, hknows, hopens⟩
    · rintro ⟨hknown, haccepts, hserved, hknows, hopens⟩
      obtain ⟨hcontext, hmechanism⟩ := (ServerConfig.accepts_iff hknown).mp haccepts
      exact ⟨hcontext, hmechanism, hserved, hknows, hopens⟩
  have hunserved : ¬ aarq.mechanism.Served → s.config.Knows aarq := fun h hlow => absurd (.inr (.inl hlow)) h
  obtain ⟨hacc, haccepts, hknows, hopens, hserved⟩ | ⟨hno, hclosed, hrest⟩ :=
    Srv.handleAarq_granted C S hd (Srv.handle_aare C S hd hrun haare) haare
  · have hlate : ¬ s.RefusesLate C aarq := fun h => h.unserved hserved
    constructor
    · rintro ⟨hexact, -⟩
      exact ⟨fun h => (hgrants.mp (hexact.mp hacc)).1 h.unknown, hlate⟩
    · rintro ⟨hunknown, -⟩
      have hknown : ¬ aarq.Unknown := fun h => hunknown ⟨h, haccepts, hserved, hknows, hopens⟩
      exact ⟨iff_of_true hacc (hgrants.mpr ⟨hknown, haccepts, hserved, hknows, hopens⟩), absurd hacc⟩
  · obtain ⟨hfails, hfalse⟩ | ⟨haccepts, hopens, hserved, hkey⟩ := hrest
    · refine iff_of_true ⟨iff_of_false hno fun h => ?_, fun _ => ⟨hclosed, hfalse⟩⟩ ⟨fun h => ?_, fun h => ?_⟩
      · obtain ⟨-, haccepts, -, hknows, hopens⟩ := hgrants.mp h
        exact hfails ⟨haccepts, hknows, hopens⟩
      · exact hfails ⟨h.accepts, h.knows, h.opens⟩
      · exact hfails ⟨h.accepts, hunserved h.unserved, h.opens⟩
    · have hrefused : ¬ s.Grants C aarq := fun h => hserved h.served
      constructor
      · rintro ⟨-, hover⟩
        refine ⟨fun h => hserved h.served, fun h => ?_⟩
        rw [hkey.mpr h.key] at hover
        cases (hover hno).2
      · rintro ⟨-, hlate⟩
        refine ⟨iff_of_false hno hrefused, fun _ => ⟨hclosed, ?_⟩⟩
        rw [← Bool.not_eq_true, hkey]
        exact fun h => hlate ⟨haccepts, hserved, hopens, h⟩

/-- A server without security that has just been made. -/
def freshServer (config : ServerConfig) : Server Unit SampleKeys 64 := .new 64 config () .plain

/-- An AARQ of the seventh context. -/
def strangeAarq : Bytes := [0x60, 0x0B, 0xA1, 0x09, 0x06, 0x07, 0x60, 0x85, 0x74, 0x05, 0x08, 0x01, 0x07]

/-- An AARQ of MD5 with a dedicated key. -/
def keyedAarq : Bytes :=
  [0x60, 0x37, 0xA1, 0x09, 0x06, 0x07, 0x60, 0x85, 0x74, 0x05, 0x08, 0x01, 0x01,
    0x8B, 0x07, 0x60, 0x85, 0x74, 0x05, 0x08, 0x02, 0x03,
    0xBE, 0x21, 0x04, 0x1F, 0x01, 0x01, 0x10, 1, 2, 3, 4, 5, 6, 7, 8, 9, 10, 11, 12, 13, 14, 15, 16,
    0x00, 0x00, 0x06, 0x5F, 0x1F, 0x04, 0x00, 0xFF, 0xFF, 0xFF, 0x04, 0x00]

/-- What the AARE says that answers `apdu`. -/
def answered (config : ServerConfig) (apdu : Bytes) : Option AssociationResult :=
  (Srv.handle sampleProvider (.constant [0x00] ⟨0x01⟩) apdu 64 .zeros (freshServer config)).1.toOption.bind
    fun bytes => (Read.fromBytes Aare.decode bytes).toOption.map Aare.result

/-- A server of short names accepts a context that has no name, and a refused MD5 leaves its key. -/
theorem association_inexact :
    (answered { referencing := .shortName } strangeAarq = some .accepted ∧
      (Read.fromBytes Aarq.decode strangeAarq).toOption.map Aarq.context = some (.other 7)) ∧
    answered { mechanism := .highMd5 } keyedAarq = some .rejectedPermanent ∧
      (Srv.handle sampleProvider (.constant [0x00] ⟨0x01⟩) keyedAarq 64 .zeros
        (freshServer { mechanism := .highMd5 })).2.protector.policy.dedicated = true := by
  decide +kernel

theorem ok_of_toOption {α : Type} {r : Result α} {a : α} (h : r.toOption = some a) : r = .ok a := by
  cases r with
  | error e => cases h
  | ok b => rw [Option.some.inj h]

theorem association_exact_plain :
    (freshServer {}).Grants sampleProvider { userInformation := some (plainAarq.drop 6) } := by
  have hd : Read.fromBytes Aarq.decode plainAarq =
      .ok { userInformation := some (plainAarq.drop 6) } := by decide +kernel
  have hanswer : answered {} plainAarq = some .accepted := by decide +kernel
  unfold answered at hanswer
  cases hrun : Srv.handle sampleProvider (.constant [0x00] ⟨0x01⟩) plainAarq 64 .zeros (freshServer {}) with
  | mk r t =>
    rw [hrun, Option.bind_eq_some_iff] at hanswer
    obtain ⟨bytes, hbytes, hanswer⟩ := hanswer
    obtain ⟨aare, haare, hresult⟩ := Option.map_eq_some_iff.mp hanswer
    have h := association_exact sampleProvider (.constant [0x00] ⟨0x01⟩) hd
      (hrun.trans (congrArg (·, t) (ok_of_toOption hbytes))) (ok_of_toOption haare)
    refine (h.mpr ⟨fun hu => ?_, fun hl => hl.unserved (.inl rfl)⟩).1.mp hresult
    obtain ⟨arc, harc⟩ := hu.unknown
    cases harc

end Dlms
