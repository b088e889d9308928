import DlmsCosem.Server.Answerable

/-!
# Who a server is open to

The AARQ decides: where a server is open, the last AARQ was accepted, and the client has shown what the
mechanism asks for. The state is changed late in the handshake, and an AARQ that breaks off before that
leaves the server open, or waiting, as it was; one that breaks off after it leaves the server open without
an AARE (`refused_caller_leaves_open`). Where no AARQ breaks off (`Server.Finishes`), every run of a server
is as it should be (`open_to_authenticated`).
-/

namespace Dlms

variable {σ π : Type} {N : Nat}

/-! ## AARQs -/

/-- The AARQ and the source of random bytes have what a challenge takes. -/
def Aarq.Challenges (aarq : Aarq) (config : ServerConfig) (rng : Entropy) : Prop :=
  aarq.mechanism = .highGmac → (∃ given, aarq.callingAuthenticationValue = some given ∧ given.length ≤ 64) ∧
    ∃ challenge, rng.fill (Srv.challengeLen config) = .ok challenge

theorem AuthMechanism.Served.highGmac {m : AuthMechanism} (h : m.Served) (hhigh : m.isHighLevel = true) :
    m = .highGmac := by
  obtain rfl | rfl | rfl := h
  · cases hhigh
  · cases hhigh
  · rfl

theorem Server.Over.of_state {s t : Server σ π N} (h : s.Over) (ht : t.state = s.state) : t.Over := by
  unfold Server.Over
  rw [ht]
  exact h

theorem Server.Over.not_live {s : Server σ π N} (h : s.Over) :
    s.state ≠ .associated ∧ s.state ≠ .awaitingHlsReply := by
  rcases h with h | h <;> rw [h] <;> exact ⟨nofun, nofun⟩

/-- The handling of an AARQ does not break off in a way that leaves the server open, or waiting for the
proof of the client. If it is so already, the AARQ has the form it should have as far as it is looked at;
and if the AARQ is to be accepted, the AARE can be sent. -/
structure Server.Finishes (C : CryptoProvider π) (s : Server σ π N) (apdu : Bytes) (room : Nat) (rng : Entropy) : Prop where
  decoded : ¬ s.Over → ∃ aarq, Read.fromBytes Aarq.decode apdu = .ok aarq
  title : ¬ s.Over → ∀ aarq b, Read.fromBytes Aarq.decode apdu = .ok aarq → s.config.Accepts aarq →
    aarq.callingApTitle = some b → b.length = 8
  initiate : ¬ s.Over → ∀ aarq s₁, Srv.Reached C s apdu aarq s₁ → s₁.CanRead C aarq
  challenge : ¬ s.Over → ∀ aarq s₁, Srv.Reached C s apdu aarq s₁ → s₁.Opens C aarq →
    aarq.Challenges s.config rng
  answer : ∀ aarq s₁, Srv.Reached C s apdu aarq s₁ → s₁.CanRead C aarq → s₁.Opens C aarq →
    aarq.mechanism.Served → aarq.Challenges s.config rng → s₁.CanAccept C aarq room

namespace Srv

variable (C : CryptoProvider π) (S : ObjectStore σ)

/-- Where the authentication starts, there was what it takes. -/
theorem startAuthentication_challenges {aarq : Aarq} {rng : Entropy} {s t : Server σ π N}
    {x : Option Bytes} (h : startAuthentication aarq aarq.mechanism rng s = (.ok x, t)) :
    aarq.Challenges s.config rng := by
  intro hm
  unfold startAuthentication at h
  rw [hm, if_pos (by rfl)] at h
  cases hv : aarq.callingAuthenticationValue with
  | none =>
    rw [hv] at h
    cases (Prod.mk.inj h).1
  | some given =>
    rw [hv] at h
    simp only [need, Prog.pure_bind_run] at h
    split at h
    · cases (Prod.mk.inj h).1
    · rename_i hlen
      simp only [Prog.modify_bind_run, Prog.gets_bind_run] at h
      refine ⟨⟨given, rfl, by omega⟩, ?_⟩
      cases hc : rng.fill (challengeLen s.config) with
      | error e =>
        rw [hc] at h
        cases (Prod.mk.inj h).1
      | ok challenge => exact ⟨challenge, rfl⟩

/-- Nothing of who calls is lost. -/
theorem Called.title {s s₁ : Server σ π N} {aarq : Aarq} (h : Called C s aarq s₁) :
    s₁.clientSystemTitle.map SystemTitle.bytes = aarq.callingApTitle := by
  obtain ⟨hn, rfl⟩ | ⟨b, title, hb, ht, rfl⟩ := h
  · exact hn.symm
  · rw [hb, ← SystemTitle.fromSlice_ok ht]
    unfold Server.takeTitle
    split <;> rfl

theorem Called.state {s s₁ : Server σ π N} {aarq : Aarq} (h : Called C s aarq s₁) :
    s₁.state = s.state := by
  obtain ⟨-, rfl⟩ | ⟨b, title, -, -, rfl⟩ := h
  · rfl
  · unfold Server.takeTitle
    split <;> rfl

theorem Called.ciphered {s s₁ : Server σ π N} {aarq : Aarq} (h : Called C s aarq s₁) :
    s₁.cipheredAssociation = aarq.context.isCiphered := by
  obtain ⟨-, rfl⟩ | ⟨b, title, -, -, rfl⟩ := h
  · rfl
  · unfold Server.takeTitle
    split <;> rfl

/-- What the user information leaves as it was, where the handshake goes on. -/
structure Undisturbed (s t : Server σ π N) : Prop where
  config : t.config = s.config
  state : t.state = s.state
  title : t.clientSystemTitle = s.clientSystemTitle
  ciphered : t.cipheredAssociation = s.cipheredAssociation
  counter : t.invocationCounter = s.invocationCounter

theorem Proposal.undisturbed {s t : Server σ π N} {aarq : Aarq} {x : Conformance × UInt16}
    (h : Proposal C s aarq (.ok (.inr x), t)) : Undisturbed s t := by
  cases h with
  | terminated _ _ _ hne => exact absurd rfl (hne _)
  | absent _ hstand hstate hcounter =>
    exact ⟨congrArg Standing.config hstand, hstate, congrArg Standing.clientSystemTitle hstand,
      congrArg Standing.cipheredAssociation hstand, hcounter⟩
  | taken _ _ _ _ _ _ _ _ _ hstand hstate hcounter =>
    exact ⟨congrArg Standing.config hstand, hstate, congrArg Standing.clientSystemTitle hstand,
      congrArg Standing.cipheredAssociation hstand, hcounter⟩

/-- A challenge has the length that was asked for. -/
theorem Started.lengths {s t : Server σ π N} {aarq : Aarq} {mechanism : AuthMechanism} {rng : Entropy}
    {challenge : Option Bytes} (h : Started s aarq mechanism rng (.ok challenge, t)) :
    challenge.map List.length = if mechanism.isHighLevel then some (challengeLen s.config) else none := by
  cases h with
  | challenge _ c hhigh _ hfill =>
    rw [if_pos hhigh, ← rng.length_fill _ _ hfill]
    rfl
  | served hlow =>
    rw [hlow]
    rfl

/-- Once the authentication started, the AARE can be written. -/
theorem Started.ready {s s₁ t u : Server σ π N} {apdu : Bytes} {aarq : Aarq} {proposed : Conformance}
    {clientMax : UInt16} {rng : Entropy} {challenge : Option Bytes}
    (h : Started (t.keepNegotiated proposed clientMax) aarq aarq.mechanism rng (.ok challenge, u))
    (hr : Reached C s apdu aarq s₁) (hu : Undisturbed s₁ t)
    (hgranted : s₁.config.conformance.negotiate proposed = s₁.granted C aarq)
    (hprovider : t.protector.provider = s₁.keyed C aarq) : Ready C s₁ u aarq := by
  have hciphered : t.cipheredAssociation = !s₁.config.security.isNone := by
    obtain ⟨-, -, hne, -⟩ := hr.accepts
    rw [hu.ciphered, hr.called.ciphered C, hr.called.config C]
    exact Bool.eq_not_iff.mpr hne
  have hnegotiated : t.config.conformance.negotiate proposed = s₁.granted C aarq := by
    rw [hu.config, hgranted]
  cases h with
  | challenge => exact ⟨hu.config, hciphered, hu.counter, hprovider, hnegotiated⟩
  | served => exact ⟨hu.config, hciphered, hu.counter, hprovider, hnegotiated⟩

/-- What an AARQ that does not break off comes to. -/
inductive Concluded (s : Server σ π N) (apdu : Bytes) : Except Error Bytes × Server σ π N → Prop
  /-- There is no association. -/
  | ended (out : Except Error Bytes × Server σ π N) : out.2.Over → Concluded s apdu out
  /-- The association is open. -/
  | opened (aarq : Aarq) (aare : Aare) (bytes : Bytes) (t : Server σ π N) :
    Read.fromBytes Aarq.decode apdu = .ok aarq → s.config.Accepts aarq → s.config.Knows aarq →
    aarq.mechanism.isHighLevel = false → Read.fromBytes Aare.decode bytes = .ok aare →
    aare.result = .accepted → t.state = .associated → Concluded s apdu (.ok bytes, t)
  /-- The client has to show a proof over the challenge of the AARE. -/
  | challenged (aarq : Aarq) (aare : Aare) (bytes : Bytes) (t : Server σ π N) :
    Read.fromBytes Aarq.decode apdu = .ok aarq → s.config.Accepts aarq → s.config.Knows aarq →
    aarq.mechanism = .highGmac → Read.fromBytes Aare.decode bytes = .ok aare →
    aare.result = .accepted → aare.respondingAuthenticationValue = some t.serverChallenge →
    t.clientSystemTitle.map SystemTitle.bytes = aarq.callingApTitle →
    t.state = .awaitingHlsReply → Concluded s apdu (.ok bytes, t)

variable {C} in
/-- An AARQ that breaks off leaves the state as it was. There was no association, then. -/
theorem Concluded.broken {s t : Server σ π N} {apdu : Bytes} {e : Error} (ht : t.state = s.state)
    (hover : ¬ ¬ s.Over) : Concluded s apdu (.error e, t) :=
  .ended _ ((not_not.mp hover).of_state ht)

/-- The user information was good: what the authentication and the AARE come to. -/
theorem authenticate_concluded {s s₁ t : Server σ π N} {apdu : Bytes} {aarq : Aarq} {room : Nat}
    {rng : Entropy} {proposed : Conformance} {clientMax : UInt16} (hf : s.Finishes C apdu room rng)
    (hr : Reached C s apdu aarq s₁) (hserved : aarq.mechanism.Served)
    (ht : takeInitiate C S aarq room s₁ = (.ok (.inr (proposed, clientMax)), t)) :
    Concluded s apdu ((startAuthentication aarq aarq.mechanism rng >>= fun challenge =>
      acceptAssociation C S aarq.context aarq.mechanism challenge room)
        (t.keepNegotiated proposed clientMax)) := by
  have hp := takeInitiate_proposal C S aarq room s₁
  have hl := takeInitiate_looked C S aarq room s₁
  rw [ht] at hp hl
  have hu := hp.undisturbed C
  have hconfig : t.config = s.config := hu.config.trans (hr.called.config C)
  have hopens : s₁.Opens C aarq := by
    cases hl with
    | opened _ _ hopens => exact hopens
  have hs := startAuthentication_started (t.keepNegotiated proposed clientMax) aarq aarq.mechanism rng
  match hrun : startAuthentication aarq aarq.mechanism rng (t.keepNegotiated proposed clientMax) with
  | (.error e, u) =>
    rw [hrun] at hs
    rw [Prog.bind_run_error hrun]
    cases hs with
    | fault _ given hhigh hbad =>
      refine .broken (hu.state.trans (hr.called.state C)) fun hover => ?_
      obtain ⟨⟨given, hgiven, hlen⟩, challenge, hfill⟩ :=
        hf.challenge hover aarq s₁ hr hopens (hserved.highGmac hhigh)
      obtain hlong | ⟨e, he⟩ := hbad
      · have := hlong given hgiven
        omega
      · rw [← hconfig] at hfill
        exact absurd (hfill.symm.trans he) nofun
  | (.ok challenge, u) =>
    rw [hrun] at hs
    rw [Prog.bind_run_ok hrun]
    have hchallenges := startAuthentication_challenges hrun
    change aarq.Challenges t.config rng at hchallenges
    rw [hconfig] at hchallenges
    have hlengths := hs.lengths
    change _ = if _ then some (challengeLen t.config) else _ at hlengths
    have hlen (c : Bytes) (hc : challenge = some c) : c.length ≤ 160 := by
      rw [hc, Option.map_some] at hlengths
      split at hlengths
      · rw [Option.some.inj hlengths, challengeLen]
        omega
      · cases hlengths
    obtain ⟨hread, hgranted, hprovider⟩ := takeInitiate_read C S ht
    have hready : Ready C s₁ u aarq := hs.ready C hr hu hgranted hprovider
    have hcanon := Aarq.decoded_canonical hr.decoded
    have ha := acceptAssociation_accepted C S u room hcanon.context hcanon.mechanism hlen
    generalize acceptAssociation C S aarq.context aarq.mechanism challenge room u = out at ha ⊢
    cases ha with
    | fault e v _ hunanswerable =>
      have hmechanism : aarq.mechanism = s₁.config.mechanism := by
        rw [hr.accepts.2.2.2, hr.called.config C]
      rw [hmechanism, hu.config] at hlengths
      rw [hmechanism] at hunanswerable
      have hcan := hf.answer aarq s₁ hr hread hopens hserved hchallenges
      exact absurd hunanswerable (hready.answerable C hcan hlengths)
    | ok bytes info v hreplied haare =>
      cases hs with
      | challenge given c hhigh hgiven hfill =>
        have hchallenge : v.serverChallenge = c := congrArg Standing.serverChallenge hreplied.standing
        have htitle : v.clientSystemTitle = t.clientSystemTitle :=
          congrArg Standing.clientSystemTitle hreplied.standing
        refine .challenged aarq _ bytes v hr.decoded hr.accepts hr.knows (hserved.highGmac hhigh) haare rfl
          (congrArg some hchallenge.symm) ?_ hreplied.state
        rw [htitle, hu.title]
        exact hr.called.title C
      | served hlow => exact .opened aarq _ bytes v hr.decoded hr.accepts hr.knows hlow haare rfl hreplied.state

theorem handleAarq_concluded {s : Server σ π N} {apdu : Bytes} {room : Nat} {rng : Entropy}
    (hf : s.Finishes C apdu room rng) : Concluded s apdu (handleAarq C S apdu room rng s) := by
  have hb := handleAarq_begins C S s apdu room rng
  generalize handleAarq C S apdu room rng s = out at hb ⊢
  cases hb with
  | malformed e he =>
    refine .broken rfl fun hover => ?_
    obtain ⟨aarq, hd⟩ := hf.decoded hover
    rw [he] at hd
    cases hd
  | refused => exact .ended _ (refuse_over ..)
  | title aarq b e hd ha hb hlen => exact .broken rfl fun hover => hlen (hf.title hover aarq b hd ha hb)
  | reached aarq s₁ hr =>
    have ho := openAssociation_opens C S s₁ aarq room rng
    generalize openAssociation C S aarq aarq.context aarq.mechanism room rng s₁ = out at ho ⊢
    cases ho with
    | terminated _ hover => exact .ended _ hover
    | fault e t hp =>
      cases hp with
      | terminated _ _ hover => exact .ended _ hover
      | fault _ info opened _ hinfo hopen hbad _ ht =>
        exact .broken (ht.trans (hr.called.state C)) fun hover =>
          hf.initiate hover aarq s₁ hr info opened hinfo hopen hbad
    | proceeds proposed clientMax t ht hm =>
      exact authenticate_concluded C S hf hr ((AuthMechanism.served_iff _).mpr hm) ht

end Srv

/-! ## What other APDUs do -/

/-- The APDU of the step is an AARQ. -/
def Step.IsAarq : Step σ → Prop
  | .handle apdu _ _ => apdu.head? = some 0x60
  | _ => False

/-- The APDU of the step is a `reply_to_HLS_authentication` with a proof over the challenge that has to be
the one of the client. -/
inductive Server.Proves (C : CryptoProvider π) (s : Server σ π N) (title : SystemTitle) (challenge : Bytes) :
    Step σ → Prop
  | reply (apdu : Bytes) (room : Nat) (rng : Entropy) (opened : Opened) (i : InvokeId) (d : MethodDescriptor)
    (parameters : Option Data) (proof key : Bytes) : (Srv.unprotectInto C apdu s).1 = .ok opened →
    Apdu.fromBytes opened.plain = .ok (.actionRequest (.normal i d parameters)) → d.classId = 15 →
    d.methodId = 1 → parameters.bind Data.asBytes = some proof →
    C.authenticationKey s.protector.provider = some key →
    s.protector.verifyHlsGmac C title key challenge proof = .ok () →
    Server.Proves C s title challenge (.handle apdu room rng)

/-- A proof would be that of the same client, over the same challenge. -/
structure Server.Expects (s t : Server σ π N) : Prop where
  title : t.clientSystemTitle = s.clientSystemTitle
  challenge : t.serverChallenge = s.serverChallenge

theorem Server.Expects.answering : Answering (Expects : Server σ π N → Server σ π N → Prop) where
  trans _ _ _ h h' := ⟨h'.title.trans h.title, h'.challenge.trans h.challenge⟩
  same _ _ h _ := ⟨congrArg Standing.clientSystemTitle h, congrArg Standing.serverChallenge h⟩
  event _ _ _ := ⟨rfl, rfl⟩

/-- The association is where it was. -/
structure Server.Waits (s t : Server σ π N) : Prop extends Expects s t where
  state : t.state = s.state

theorem Server.Waits.refl (s : Server σ π N) : s.Waits s := ⟨⟨rfl, rfl⟩, rfl⟩

theorem Server.Waits.log (s : Server σ π N) (e : Event) : s.Waits (s.log e) := ⟨⟨rfl, rfl⟩, rfl⟩

theorem Server.Waits.trans {s t u : Server σ π N} (h : s.Waits t) (h' : t.Waits u) : s.Waits u :=
  ⟨Expects.answering.trans _ _ _ h.toExpects h'.toExpects, h'.state.trans h.state⟩

theorem Server.Waits.of_worked {s t : Server σ π N} (h : Worked [] s t) : s.Waits t :=
  ⟨⟨congrArg Association.clientSystemTitle h.association, congrArg Association.serverChallenge h.association⟩,
    congrArg Association.state h.association⟩

theorem Server.Expects.serving (C : CryptoProvider π) :
    Serving C (Expects : Server σ π N → Server σ π N → Prop) where
  toAnswering := answering
  worked _ _ h := (Waits.of_worked h).toExpects
  unprotected s policy plain size apdu := by
    obtain ⟨w, fs, hu, -⟩ := Srv.unprotect_state C s policy plain size apdu
    rw [hu]
    exact ⟨rfl, rfl⟩
  request _ _ _ := ⟨rfl, rfl⟩

/-- What a step does that is not an AARQ: nothing to the association, or it ends it, or it brings the proof
that was awaited. -/
inductive Server.Continues (C : CryptoProvider π) (s : Server σ π N) (x : Step σ) (t : Server σ π N) : Prop
  | waits : s.Waits t → Server.Continues C s x t
  | ended : t.Over → Server.Continues C s x t
  | proved (title : SystemTitle) : s.Expects t → s.state = .awaitingHlsReply →
    s.clientSystemTitle = some title → s.Proves C title s.serverChallenge x → Server.Continues C s x t

namespace Srv

variable (C : CryptoProvider π) (S : ObjectStore σ)

/-- An APDU that is refused leaves the association alone. -/
theorem exception_waits (a : StateError) (b : ServiceError) (room : Nat) (s : Server σ π N) :
    s.Waits (exception C a b room s).2 := by
  refine ⟨(Server.Expects.answering.exception C a b room).run s, ?_⟩
  unfold exception
  rw [Prog.gets_bind_run, Prog.gets_bind_run]
  split
  · rw [reply_run]
  · obtain ⟨scratch, counter, ev, ht, -⟩ := send_emitted C (.exceptionResponse ⟨a, b, none⟩) room s
    rw [ht]

/-- What comes of the proof of the client. -/
inductive Checked (s : Server σ π N) (d : MethodDescriptor) (parameters : Option Data) (t : Server σ π N) :
    Prop
  | waits : s.Waits t → Checked s d parameters t
  | ended : t.Over → Checked s d parameters t
  | proved (title : SystemTitle) (proof key : Bytes) : d.classId = 15 → d.methodId = 1 →
    parameters.bind Data.asBytes = some proof → s.clientSystemTitle = some title →
    C.authenticationKey s.protector.provider = some key →
    s.protector.verifyHlsGmac C title key s.serverChallenge proof = .ok () → Checked s d parameters t

theorem handleHlsReply_checked (i : InvokeId) (d : MethodDescriptor) (parameters : Option Data) (room : Nat)
    (s : Server σ π N) :
    Checked C s d parameters (handleHlsReply C i d parameters room s).2 := by
  by_cases hd : d.classId = 15 ∧ d.methodId = 1
  · unfold handleHlsReply
    rw [decide_eq_true hd]
    cases hproof : parameters.bind Data.asBytes with
    | none => exact .waits (exception_waits C _ _ room s)
    | some proof =>
      dsimp only
      rw [Prog.gets_bind_run]
      cases htitle : s.clientSystemTitle with
      | none => exact .waits ⟨⟨rfl, rfl⟩, rfl⟩
      | some title =>
        simp only [need, Prog.pure_bind_run]
        obtain ⟨-, e, hrun⟩ | ⟨key, hkey, hrun⟩ := authKey_run C s
        · rw [Prog.bind_run_error hrun]
          exact .waits ⟨⟨rfl, rfl⟩, rfl⟩
        · rw [Prog.bind_run_ok hrun, Prog.gets_bind_run, Prog.gets_bind_run]
          cases hverify : s.protector.verifyHlsGmac C title key s.serverChallenge proof with
          | error e =>
            dsimp only
            rw [setState, Prog.modify_bind_run]
            obtain ⟨scratch, counter, ev, ht, -⟩ := send_emitted C
              (.actionResponse (.normal i ⟨.readWriteDenied, none⟩)) room { s with state := .closed }
            rw [ht]
            exact .ended (.inl rfl)
          | ok u => exact .proved title proof key hd.1 hd.2 hproof htitle hkey hverify
  · unfold handleHlsReply
    rw [decide_eq_false hd]
    exact .waits (exception_waits C _ _ room s)

/-- A request of an association. -/
theorem serveRequest_continues {s : Server σ π N} (req : Apdu) (room : Nat) (ha : s.Agreed) :
    s.Waits (serveRequest C S req room s).2 ∨ s.state = .awaitingHlsReply ∧
      ∃ i d parameters, req = .actionRequest (.normal i d parameters) ∧
        Checked C s d parameters (serveRequest C S req room s).2 := by
  by_cases h : s.state = .awaitingHlsReply ∧ ∃ r, req = .actionRequest r
  · obtain ⟨hs, r, rfl⟩ := h
    simp only [serveRequest, handleAction, Prog.gets_bind_run, if_pos hs]
    cases r with
    | normal i d parameters =>
      exact .inr ⟨hs, i, d, parameters, rfl, handleHlsReply_checked C i d parameters room s⟩
    | _ => exact .inl (exception_waits C _ _ room s)
  · exact .inl (.of_worked (serveRequest_works C S room (fun hs r hr => h ⟨hs, r, hr⟩) ha))

theorem handle_continues {s : Server σ π N} (apdu : Bytes) (room : Nat) (rng : Entropy) (ha : s.Agreed)
    (hx : ¬ (Step.handle apdu room rng : Step σ).IsAarq) :
    s.Continues C (.handle apdu room rng) (handle C S apdu room rng s).2 := by
  have hd := handle_dispatched C S s apdu room rng
  generalize handle C S apdu room rng s = out at hd ⊢
  cases hd with
  | refused a b => exact .waits (exception_waits C a b room s)
  | aarq _ hhead => exact absurd hhead hx
  | release =>
    rcases handleRelease_over C S apdu room s with h | h
    · rw [h]
      exact .waits ⟨⟨rfl, rfl⟩, rfl⟩
    · exact .ended h
  | request hlive =>
    have hexpects := (Server.Expects.serving C).handleProtected S apdu room ha
    obtain ⟨hopened, hprotector⟩ : s.Waits (unprotectInto C apdu s).2 ∧
        (unprotectInto C apdu s).2.protector = s.protector := by
      obtain ⟨w, fs, hu, -⟩ := unprotectInto_state C s apdu
      rw [hu]
      exact ⟨⟨⟨rfl, rfl⟩, rfl⟩, rfl⟩
    have hagreed := unprotectInto_agreed C apdu ha
    have hr := handleProtected_received C S s apdu room
    generalize handleProtected C S apdu room s = out at hr hexpects ⊢
    cases hr with
    | refused m hm =>
      refine .waits (hopened.trans ?_)
      obtain ⟨n, rfl⟩ | ⟨a, b, rfl⟩ := hm
      · rw [counterException, reply_run]
        exact .refl _
      · exact exception_waits C a b room _
    | request opened req hplain hreq =>
      have hrequest := hopened.trans (.log _ (.request opened.frame req))
      obtain h | ⟨hs, i, d, parameters, rfl, h⟩ := serveRequest_continues C S
        (s := (unprotectInto C apdu s).2.log (.request opened.frame req)) req room hagreed
      · exact .waits (hrequest.trans h)
      · cases h with
        | waits h => exact .waits (hrequest.trans h)
        | ended h => exact .ended h
        | proved title proof key hclass hmethod hproof htitle hkey hverify =>
          rw [hrequest.title] at htitle
          rw [hrequest.challenge] at hverify
          change C.authenticationKey (unprotectInto C apdu s).2.protector.provider = some key at hkey
          change (unprotectInto C apdu s).2.protector.verifyHlsGmac C title key _ proof = .ok () at hverify
          rw [hprotector] at hkey hverify
          exact .proved title hexpects (hrequest.state.symm.trans hs) htitle (.reply apdu room rng opened i d
            parameters proof key hplain hreq hclass hmethod hproof hkey hverify)

end Srv

theorem Server.step_continues (C : CryptoProvider π) (S : ObjectStore σ) {s : Server σ π N} {x : Step σ}
    (ha : s.Agreed) (hx : ¬ x.IsAarq) : s.Continues C x (s.step C S x).2 := by
  cases x with
  | handle apdu room rng => exact Srv.handle_continues C S apdu room rng ha hx
  | reset => exact .ended (.inr rfl)
  | resume => exact .waits ⟨⟨rfl, rfl⟩, rfl⟩
  | storeMut => exact .waits ⟨⟨rfl, rfl⟩, rfl⟩

/-! ## Whole runs -/

section Runs

variable (C : CryptoProvider π) (S : ObjectStore σ)

/-- An AARQ does not break off in a way that leaves the server open, or waiting for a proof. -/
def Step.Finishes (s : Server σ π N) : Step σ → Prop
  | .handle apdu room rng => apdu.head? = some 0x60 →
      if apdu.length ≤ s.config.maxPduSize.toNat then s.Finishes C apdu room rng else s.Over
  | _ => True

/-- The step is an AARQ that is answered with an AARE that accepts the association. -/
inductive Server.Admits (s : Server σ π N) (aarq : Aarq) (aare : Aare) : Step σ → Prop
  | answer (apdu bytes : Bytes) (room : Nat) (rng : Entropy) : Read.fromBytes Aarq.decode apdu = .ok aarq →
    (Srv.handle C S apdu room rng s).1 = .ok bytes → Read.fromBytes Aare.decode bytes = .ok aare →
    aare.result = .accepted → Server.Admits s aarq aare (.handle apdu room rng)

/-- After `pre` the step `x` is the last AARQ of a run. It was accepted, and had the password where one is
asked for. -/
structure Server.Joined (s₀ : Server σ π N) (steps pre : List (Step σ)) (x : Step σ) (post : List (Step σ))
    (aarq : Aarq) (aare : Aare) : Prop where
  steps : steps = pre ++ x :: post
  last : ∀ y ∈ post, ¬ y.IsAarq
  admits : (s₀.run C S pre).Admits C S aarq aare x
  mechanism : aarq.mechanism = s₀.config.mechanism
  password : s₀.config.mechanism = .low → aarq.given = s₀.config.expected

/-- After the AARQ came a proof that is that of the calling title, over the challenge of the AARE. -/
structure Server.Shown (s₀ : Server σ π N) (pre : List (Step σ)) (x : Step σ) (post : List (Step σ))
    (aarq : Aarq) (aare : Aare) : Prop where
  proof : ∃ title challenge p y q, aarq.callingApTitle = some (SystemTitle.bytes title) ∧
    aare.respondingAuthenticationValue = some challenge ∧ post = p ++ y :: q ∧
    (s₀.run C S (pre ++ x :: p)).Proves C title challenge y

/-- The last AARQ of the run was accepted, and the client has shown what the mechanism asks for. -/
def Server.Authenticated (s₀ : Server σ π N) (steps : List (Step σ)) : Prop :=
  ∃ pre x post aarq aare, s₀.Joined C S steps pre x post aarq aare ∧
    (s₀.config.mechanism = .highGmac → s₀.Shown C S pre x post aarq aare)

/-- The last AARQ of the run was accepted, and the server waits for the proof over its challenge. -/
def Server.Challenging (s₀ : Server σ π N) (steps : List (Step σ)) : Prop :=
  ∃ pre x post aarq aare, s₀.Joined C S steps pre x post aarq aare ∧
    aare.respondingAuthenticationValue = some (s₀.run C S steps).serverChallenge ∧
    (s₀.run C S steps).clientSystemTitle.map SystemTitle.bytes = aarq.callingApTitle

variable {C S} {s₀ : Server σ π N} {steps pre post : List (Step σ)} {x y : Step σ} {aarq : Aarq} {aare : Aare}

theorem Server.run_concat (s₀ : Server σ π N) (steps : List (Step σ)) (x : Step σ) :
    s₀.run C S (steps ++ [x]) = ((s₀.run C S steps).step C S x).2 := by
  rw [run_append]
  rfl

theorem Server.Joined.concat (h : s₀.Joined C S steps pre x post aarq aare) (hy : ¬ y.IsAarq) :
    s₀.Joined C S (steps ++ [y]) pre x (post ++ [y]) aarq aare where
  steps := by rw [h.steps, List.append_assoc, List.cons_append]
  last z hz := by
    rcases List.mem_append.mp hz with hz | hz
    · exact h.last z hz
    · rw [List.mem_singleton.mp hz]
      exact hy
  admits := h.admits
  mechanism := h.mechanism
  password := h.password

theorem Server.Shown.concat (h : s₀.Shown C S pre x post aarq aare) :
    s₀.Shown C S pre x (post ++ [y]) aarq aare := by
  obtain ⟨title, challenge, p, z, q, htitle, hchallenge, rfl, hproves⟩ := h.proof
  exact ⟨title, challenge, p, z, q ++ [y], htitle, hchallenge, by simp, hproves⟩

theorem Server.Authenticated.concat (h : s₀.Authenticated C S steps) (hy : ¬ y.IsAarq) :
    s₀.Authenticated C S (steps ++ [y]) := by
  obtain ⟨pre, x, post, aarq, aare, hjoined, hshown⟩ := h
  exact ⟨pre, x, post ++ [y], aarq, aare, hjoined.concat hy, fun hm => (hshown hm).concat⟩

theorem Server.Challenging.concat (h : s₀.Challenging C S steps) (hy : ¬ y.IsAarq)
    (hexpects : (s₀.run C S steps).Expects (s₀.run C S (steps ++ [y]))) :
    s₀.Challenging C S (steps ++ [y]) := by
  obtain ⟨pre, x, post, aarq, aare, hjoined, hchallenge, htitle⟩ := h
  refine ⟨pre, x, post ++ [y], aarq, aare, hjoined.concat hy, ?_, ?_⟩
  · rw [hexpects.challenge, hchallenge]
  · rw [hexpects.title, htitle]

/-- The proof that was awaited authenticates the client. -/
theorem Server.Challenging.proved (h : s₀.Challenging C S steps) {title : SystemTitle} (hy : ¬ y.IsAarq)
    (htitle : (s₀.run C S steps).clientSystemTitle = some title)
    (hproves : (s₀.run C S steps).Proves C title (s₀.run C S steps).serverChallenge y) :
    s₀.Authenticated C S (steps ++ [y]) := by
  obtain ⟨pre, x, post, aarq, aare, hjoined, hchallenge, hcalling⟩ := h
  refine ⟨pre, x, post ++ [y], aarq, aare, hjoined.concat hy, fun _ => ⟨title, _, post, y, [], ?_, hchallenge,
    rfl, ?_⟩⟩
  · rw [← hcalling, htitle]
    rfl
  · rw [← hjoined.steps]
    exact hproves

variable (C S)

/-- What holds of every run whose AARQs do not break off. -/
structure Server.Accounted (s₀ : Server σ π N) (steps : List (Step σ)) : Prop where
  config : (s₀.run C S steps).config = s₀.config
  agreed : (s₀.run C S steps).Agreed
  opened : (s₀.run C S steps).state = .associated → s₀.Authenticated C S steps
  awaited : (s₀.run C S steps).state = .awaitingHlsReply → s₀.Challenging C S steps

variable {C S}

/-- An AARQ that does not break off comes to what it should, also where it is too long to be looked at. -/
theorem Srv.handle_concluded {s : Server σ π N} {apdu : Bytes} {room : Nat} {rng : Entropy}
    (hhead : apdu.head? = some 0x60) (hf : (Step.handle apdu room rng : Step σ).Finishes C s) :
    Srv.Concluded s apdu (Srv.handle C S apdu room rng s) := by
  have hf := hf hhead
  split at hf
  · rename_i hlen
    rw [Srv.handle_aarq C S hlen hhead]
    exact Srv.handleAarq_concluded C S hf
  · rename_i hlen
    have hd := Srv.handle_dispatched C S s apdu room rng
    generalize Srv.handle C S apdu room rng s = out at hd ⊢
    cases hd with
    | refused a b => exact .ended _ (hf.of_state (Srv.exception_waits C a b room s).state)
    | aarq hshort => exact absurd hshort hlen
    | release h =>
      rw [hhead] at h
      cases h
    | request _ hne => exact absurd hhead hne

/-- An AARQ that was accepted is the last one. -/
theorem Server.Joined.of_aarq {apdu bytes : Bytes} {room : Nat} {rng : Entropy}
    (hd : Read.fromBytes Aarq.decode apdu = .ok aarq) (haccepts : s₀.config.Accepts aarq)
    (hknows : s₀.config.Knows aarq) (hok : (Srv.handle C S apdu room rng (s₀.run C S steps)).1 = .ok bytes)
    (haare : Read.fromBytes Aare.decode bytes = .ok aare) (hresult : aare.result = .accepted) :
    s₀.Joined C S (steps ++ [.handle apdu room rng]) steps (.handle apdu room rng) [] aarq aare := by
  obtain ⟨-, -, -, hmechanism⟩ := haccepts
  exact ⟨rfl, nofun, .answer apdu bytes room rng hd hok haare hresult, hmechanism,
    fun hlow => hknows (hmechanism.trans hlow)⟩

theorem Server.Accounted.of_over (h : s₀.Accounted C S steps) (hover : (s₀.run C S (steps ++ [x])).Over) :
    s₀.Accounted C S (steps ++ [x]) where
  config := by
    rw [Server.run_concat]
    exact (Server.step_config C S x h.agreed).trans h.config
  agreed := by
    rw [Server.run_concat]
    exact Server.step_agreed C S x h.agreed
  opened hs := absurd hs hover.not_live.1
  awaited hs := absurd hs hover.not_live.2

/-- Whatever was before an AARQ, the association is that of the AARQ after it. -/
theorem Server.Accounted.afterAarq {apdu : Bytes} {room : Nat} {rng : Entropy} (h : s₀.Accounted C S steps)
    (hhead : apdu.head? = some 0x60)
    (hf : (Step.handle apdu room rng : Step σ).Finishes C (s₀.run C S steps)) :
    s₀.Accounted C S (steps ++ [.handle apdu room rng]) := by
  have hrun : s₀.run C S (steps ++ [.handle apdu room rng]) =
      (Srv.handle C S apdu room rng (s₀.run C S steps)).2 := Server.run_concat ..
  have hconfig := (Srv.handle_config C S apdu room rng h.agreed).trans h.config
  have hagreed := Srv.handle_agreed C S apdu room rng h.agreed
  rw [← hrun] at hconfig hagreed
  have hc := Srv.handle_concluded (S := S) hhead hf
  generalize hout : Srv.handle C S apdu room rng (s₀.run C S steps) = out at hrun hc
  have hok {bytes : Bytes} (ho : out.1 = .ok bytes) :
      (Srv.handle C S apdu room rng (s₀.run C S steps)).1 = .ok bytes := by
    rw [hout, ho]
  cases hc with
  | ended _ hover => exact h.of_over (by rw [hrun]; exact hover)
  | opened aarq aare bytes t hd haccepts hknows hlow haare hresult hstate =>
    rw [h.config] at haccepts hknows
    have hj := Server.Joined.of_aarq hd haccepts hknows (hok rfl) haare hresult
    refine ⟨hconfig, hagreed, fun _ => ⟨steps, _, [], aarq, aare, hj, fun hm => ?_⟩, fun hs => ?_⟩
    · rw [hj.mechanism, hm] at hlow
      cases hlow
    · rw [hrun, hstate] at hs
      cases hs
  | challenged aarq aare bytes t hd haccepts hknows hgmac haare hresult hchallenge htitle hstate =>
    rw [h.config] at haccepts hknows
    have hj := Server.Joined.of_aarq hd haccepts hknows (hok rfl) haare hresult
    refine ⟨hconfig, hagreed, fun hs => ?_, fun _ => ⟨steps, _, [], aarq, aare, hj, ?_, ?_⟩⟩
    · rw [hrun, hstate] at hs
      cases hs
    · rw [hrun, hchallenge]
    · rw [hrun, htitle]

/-- One more step of a run. -/
theorem Server.Accounted.concat (h : s₀.Accounted C S steps) (hx : x.Finishes C (s₀.run C S steps)) :
    s₀.Accounted C S (steps ++ [x]) := by
  by_cases haarq : x.IsAarq
  · cases x with
    | handle apdu room rng => exact h.afterAarq haarq hx
    | _ => exact absurd haarq id
  · have hconfig := (Server.step_config C S x h.agreed).trans h.config
    have hagreed := Server.step_agreed C S x h.agreed
    have hc := Server.step_continues C S h.agreed haarq
    rw [← Server.run_concat] at hconfig hagreed hc
    cases hc with
    | waits hw =>
      refine ⟨hconfig, hagreed, fun hs => ?_, fun hs => ?_⟩
      · exact (h.opened (hw.state.symm.trans hs)).concat haarq
      · exact (h.awaited (hw.state.symm.trans hs)).concat haarq hw.toExpects
    | ended hover => exact h.of_over hover
    | proved title hexpects hs htitle hproves =>
      have hchallenging := h.awaited hs
      exact ⟨hconfig, hagreed, fun _ => hchallenging.proved haarq htitle hproves,
        fun _ => hchallenging.concat haarq hexpects⟩

end Runs

/-- In every run of a server whose AARQs do not break off: where the server is open, the last AARQ was
answered with an AARE that accepts the association. It had the password, where the mechanism is `low`; where
it is `highGmac`, a proof came after it that is that of the calling title, over the challenge of that AARE. -/
theorem open_to_authenticated (C : CryptoProvider π) (S : ObjectStore σ) (config : ServerConfig) (store : σ)
    (provider : π) (steps : List (Step σ))
    (h : ∀ pre x post, steps = pre ++ x :: post →
      x.Finishes C ((Server.new N config store provider).run C S pre)) :
    ((Server.new N config store provider).run C S steps).state = .associated →
      (Server.new N config store provider).Authenticated C S steps := by
  suffices hall : (Server.new N config store provider).Accounted C S steps from hall.opened
  induction steps using List.reverseRecOn with
  | nil => exact ⟨rfl, trivial, nofun, nofun⟩
  | append_singleton steps x ih =>
    refine Server.Accounted.concat (ih fun pre y post hy => ?_) (h steps x [] rfl)
    exact h pre y (post ++ [x]) (by rw [hy]; simp)

/-- A server that asks for GMAC. -/
def gmacConfig : ServerConfig where
  systemTitle := authenticatingConfig.systemTitle
  mechanism := .highGmac

/-- The AARQ of 1, 2, .. 8 with a challenge. -/
def gmacAarq : Bytes :=
  [0x60, 0x2C, 0xA1, 0x09, 0x06, 0x07, 0x60, 0x85, 0x74, 0x05, 0x08, 0x01, 0x01,
    0xA6, 0x0A, 0x04, 0x08, 1, 2, 3, 4, 5, 6, 7, 8,
    0x8B, 0x07, 0x60, 0x85, 0x74, 0x05, 0x08, 0x02, 0x05,
    0xAC, 0x0A, 0x80, 0x08, 1, 1, 2, 2, 3, 3, 4, 4]

/-- The proof of 1, 2, .. 8 over a challenge of sixteen zeros. -/
def gmacReply : Bytes :=
  [0xC3, 0x01, 0xC1, 0x00, 0x0F, 0x00, 0x00, 0x28, 0x00, 0x00, 0xFF, 0x01, 0x01, 0x09, 0x11,
    0x10, 0x00, 0x00, 0x00, 0x01, 240, 75, 133, 21, 107, 136, 21, 228, 236, 139, 35, 91]

theorem open_to_authenticated_gmac :
    (Server.new 64 gmacConfig () SampleKeys.authenticating).Authenticated sampleProvider
      (.constant [0x00] ⟨0x01⟩) [.handle gmacAarq 128 .zeros, .handle gmacReply 128 .zeros] := by
  refine open_to_authenticated sampleProvider (.constant [0x00] ⟨0x01⟩) gmacConfig () .authenticating _
    (fun pre x post h => ?_) (by decide +kernel)
  rcases pre with _ | ⟨y, pre⟩
  · obtain ⟨rfl, -⟩ := List.cons.inj h
    have hover : (Server.new 64 gmacConfig () SampleKeys.authenticating : Server Unit _ _).Over := .inr rfl
    intro _
    rw [if_pos (by decide)]
    refine ⟨absurd hover, absurd hover, absurd hover, absurd hover, fun aarq s₁ hr _ _ _ _ => ⟨?_, ?_⟩⟩
    · rw [hr.called.config]
      decide +kernel
    · rw [hr.called.config]
      nofun
  · obtain ⟨rfl, htail⟩ := List.cons.inj h
    obtain ⟨rfl, rfl⟩ : pre = [] ∧ x = .handle gmacReply 128 .zeros := by
      rcases pre with _ | ⟨z, pre⟩
      · exact ⟨rfl, (List.cons.inj htail).1.symm⟩
      · have := congrArg List.length htail
        simp at this
    intro hhead
    cases hhead

/-- A server that asks for the password 1234. -/
def lowConfig : ServerConfig where
  mechanism := .low
  password := some ⟨[0x31, 0x32, 0x33, 0x34], by decide⟩

/-- An AARQ with the password. -/
def lowAarq : Bytes :=
  [0x60, 0x1C, 0xA1, 0x09, 0x06, 0x07, 0x60, 0x85, 0x74, 0x05, 0x08, 0x01, 0x01,
    0x8B, 0x07, 0x60, 0x85, 0x74, 0x05, 0x08, 0x02, 0x01, 0xAC, 0x06, 0x80, 0x04, 0x31, 0x32, 0x33, 0x34]

/-- An AARQ without it, of a caller with seven bytes of a title. -/
def shortTitleAarq : Bytes :=
  [0x60, 0x1F, 0xA1, 0x09, 0x06, 0x07, 0x60, 0x85, 0x74, 0x05, 0x08, 0x01, 0x01,
    0xA6, 0x09, 0x04, 0x07, 1, 2, 3, 4, 5, 6, 7,
    0x8B, 0x07, 0x60, 0x85, 0x74, 0x05, 0x08, 0x02, 0x01]

/-- An AARQ that ends with an error leaves the server open to whoever sent it. -/
theorem refused_caller_leaves_open :
    ¬ ∀ steps : List (Step Unit),
      ((Server.new 64 lowConfig () SampleKeys.plain).run sampleProvider (.constant [0x00] ⟨0x01⟩)
        steps).state = .associated →
      (Server.new 64 lowConfig () SampleKeys.plain).Authenticated sampleProvider
        (.constant [0x00] ⟨0x01⟩) steps := by
  intro h
  obtain ⟨pre, x, post, aarq, aare, hj, -⟩ :=
    h [.handle lowAarq 128 .zeros, .handle shortTitleAarq 128 .zeros] (by decide +kernel)
  have hsteps := hj.steps
  rcases pre with _ | ⟨y, pre⟩
  · obtain ⟨rfl, rfl⟩ := List.cons.inj hsteps
    exact hj.last _ (List.mem_singleton.mpr rfl) rfl
  · obtain ⟨rfl, htail⟩ := List.cons.inj hsteps
    rcases pre with _ | ⟨z, pre⟩
    · obtain ⟨rfl, -⟩ := List.cons.inj htail
      have hfails : (Srv.handle sampleProvider (.constant [0x00] ⟨0x01⟩) shortTitleAarq 128 .zeros
          ((Server.new 64 lowConfig () SampleKeys.plain).run sampleProvider (.constant [0x00] ⟨0x01⟩)
            [.handle lowAarq 128 .zeros])).1.toOption = none := by decide +kernel
      cases hj.admits with
      | answer _ bytes _ _ _ hok =>
        rw [hok] at hfails
        cases hfails
    · have := congrArg List.length htail
      simp at this

end Dlms
