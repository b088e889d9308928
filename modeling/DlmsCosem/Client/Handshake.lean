import DlmsCosem.Client.Walks
import DlmsCosem.Security.Acceptance

/-!
# What the methods do to the handshake

Each method that is part of the handshake changes the state for itself, and only `hlsReplyRequest` looks at
where the session is. `Opens` is the AARE that opens a session or brings it to the proofs, and `Convinces` the
proof of the server that opens it, in whatever state. `step_moved` puts the methods together: a step leaves
the handshake where it is, or it is one of a few that do not.
-/

namespace Dlms

variable {π : Type} {N : Nat}

/-- An InitiateResponse has its tag before it. -/
theorem readGranted_initiated {plain : Bytes} {r : InitiateResponse}
    (h : (readGranted (Reader.new plain)).1 = .ok (.initiated r)) :
    plain.head? = some ApduTag.initiateResponse.asU8 := by
  unfold readGranted at h
  obtain ⟨b, reader, hread, h⟩ := Prog.bind_fst_ok h
  obtain ⟨hrest, -⟩ := Read.u8_ok hread
  change plain = b :: reader.rest at hrest
  rw [hrest]
  generalize htag : ApduTag.fromU8 b = tag at h
  split at h
  · exact congrArg some (ApduTag.asU8_of_fromU8 htag).symm
  · cases h
  · cases h

namespace ClientSession

variable (C : CryptoProvider π)

/-! ## What the answers hold -/

/-- The session once it knows the title in an AARE. -/
def titled (s : ClientSession π N) (aare : Aare) : ClientSession π N :=
  match aare.respondingApTitle.map SystemTitle.fromSlice with
  | some (.ok title) => { s with serverSystemTitle := some title }
  | _ => s

/-- The user information of an AARE, once its protection is off. -/
def openedInfo (s : ClientSession π N) (info : Bytes) : Result Opened :=
  (unprotectApdu C s.protector (s.incoming C s.config.security.global Cli.plainInitiate) info
    ⟨s.peerReplay, zeros 256⟩).1

/-- The user information of an AARE, where there is some, holds an InitiateResponse. -/
def Initiated (s : ClientSession π N) (aare : Aare) : Prop :=
  ∀ info, aare.userInformation = some info → ∃ opened r, s.openedInfo C info = .ok opened ∧
    (readGranted (Reader.new opened.plain)).1 = .ok (.initiated r)

/-- An AARE has a challenge, where the mechanism needs one. -/
def Challenged (s : ClientSession π N) (aare : Aare) : Prop :=
  s.config.mechanism.isHighLevel = true →
    ∃ c, aare.respondingAuthenticationValue = some c ∧ c.length ≤ 64

/-- The AARE opens the session, or brings it to the proofs. -/
structure Opens (s : ClientSession π N) (apdu : Bytes) (aare : Aare) : Prop where
  head : apdu.head? ≠ some ApduTag.exceptionResponse.asU8
  decoded : Read.fromBytes Aare.decode apdu = .ok aare
  title : ∀ b, aare.respondingApTitle = some b → b.length = 8
  accepted : aare.isAccepted = true
  context : ∀ c, aare.applicationContext = some c → c = s.applicationContext
  mechanism : ∀ m, aare.mechanismName = some m → m = s.config.mechanism
  named : s.config.mechanism ≠ .none → aare.mechanismName ≠ none
  information : (s.titled aare).Initiated C aare
  challenge : s.Challenged aare

/-- The answer to the proof of the client has a proof of the server over the challenge of the session. -/
def Convinces (s : ClientSession π N) (apdu : Bytes) : Prop :=
  ∃ plain i response proof peer key, (Cli.unprotectInto C apdu 512 s).1 = .ok plain ∧
    Apdu.fromBytes plain = .ok (.actionResponse (.normal i response)) ∧ response.result.isSuccess = true ∧
    Cli.hlsProof response = some proof ∧ s.serverSystemTitle = some peer ∧
    C.authenticationKey s.protector.provider = some key ∧
    s.protector.verifyHlsGmac C peer key s.clientChallenge proof = .ok ()

/-- The user information came in a frame of the server that is protected as the configuration demands, under
the global key, and holds an InitiateResponse. -/
def Sealed (s : ClientSession π N) (info : Bytes) : Prop :=
  ∃ plain t tag e peer key r,
    Taken C s.protector (s.incoming C s.config.security.global Cli.plainInitiate) info
      ⟨s.peerReplay, zeros 256⟩ plain t tag e peer key ∧
    (readGranted (Reader.new plain)).1 = .ok (.initiated r)

variable {C} in
/-- User information that is not a bare InitiateResponse came protected. -/
theorem openedInfo_sealed {s : ClientSession π N} {info : Bytes} {opened : Opened} {r : InitiateResponse}
    (hsecured : s.config.security.isNone = false) (hopened : s.openedInfo C info = .ok opened)
    (hr : (readGranted (Reader.new opened.plain)).1 = .ok (.initiated r))
    (hbare : info.head? ≠ some ApduTag.initiateResponse.asU8) : s.Sealed C info := by
  have hi := unprotectApdu_inspected C s.protector (s.incoming C s.config.security.global Cli.plainInitiate)
    hsecured info ⟨s.peerReplay, zeros 256⟩
  unfold openedInfo at hopened
  generalize unprotectApdu C s.protector (s.incoming C s.config.security.global Cli.plainInitiate) info
    ⟨s.peerReplay, zeros 256⟩ = out at hi hopened
  cases hi with
  | refused e t => cases hopened
  | bare tag t =>
    obtain rfl := Except.ok.inj hopened
    exact absurd (readGranted_initiated hr) hbare
  | frame x t plain tag e peer key htaken hplain =>
    rw [hplain opened hopened] at hr
    exact ⟨plain, t, tag, e, peer, key, r, htaken, hr⟩

/-! ## What the methods do to the handshake -/

/-- The handshake is where it was. -/
structure Abides (s t : ClientSession π N) : Prop where
  config : t.config = s.config
  state : t.state = s.state
  challenge : t.clientChallenge = s.clientChallenge

theorem Abides.refl (s : ClientSession π N) : s.Abides s := ⟨rfl, rfl, rfl⟩

theorem Abides.trans {s t u : ClientSession π N} (h : s.Abides t) (h' : t.Abides u) : s.Abides u :=
  ⟨h'.config.trans h.config, h'.state.trans h.state, h'.challenge.trans h.challenge⟩

theorem Protected.abides {s t : ClientSession π N} (h : s.Protected t) : s.Abides t := by
  cases h <;> exact ⟨rfl, rfl, rfl⟩

theorem titled_abides (s : ClientSession π N) (aare : Aare) : s.Abides (s.titled aare) := by
  unfold titled
  split <;> exact ⟨rfl, rfl, rfl⟩

end ClientSession

namespace Cli

open ClientSession

variable (C : CryptoProvider π)

/-- The method leaves the handshake where it is. -/
abbrev Abiding {α : Type} (m : Cli π N α) : Prop := Prog.Keeps Abides m

namespace Abiding

variable {α β : Type}

theorem bind {m : Cli π N α} {f : α → Cli π N β} (hm : Abiding m) (hf : ∀ a, Abiding (f a)) :
    Abiding (m >>= f) := Prog.Keeps.bind (fun _ _ _ h h' => h.trans h') hm hf

theorem rules : LookRules (fun _ _ (m : Cli π N _) => Abiding m) where
  pure _ := ⟨fun s => .refl s⟩
  throw _ := ⟨fun s => .refl s⟩
  bind := bind
  gets _ := ⟨fun s => .refl s⟩

theorem modify {f : ClientSession π N → ClientSession π N} (h : ∀ s, Abides s (f s)) :
    Abiding (Prog.modify f : Cli π N Unit) := ⟨fun s => h s⟩

theorem send (apdu : Apdu) (room : Nat) : Abiding (send C apdu room : Cli π N Bytes) := by
  refine ⟨fun s => ?_⟩
  obtain ⟨t, ht, ⟨bytes, hrun⟩ | ⟨e, hrun⟩⟩ := send_run C apdu room s
  · rw [hrun]
    exact ht.abides.trans ⟨rfl, rfl, rfl⟩
  · rw [hrun]
    exact ht.abides

theorem nextInvokeId : Abiding (nextInvokeId : Cli π N InvokeId) := ⟨fun _ => ⟨rfl, rfl, rfl⟩⟩

theorem outstandingId : Abiding (outstandingId : Cli π N InvokeId) :=
  bind ⟨fun s => .refl s⟩ fun _ => rules.need (P := fun _ => True) ..

theorem nextCounter : Abiding (nextCounter : Cli π N UInt32) := by
  refine ⟨fun s => ?_⟩
  obtain ⟨value, c, -, hrun⟩ | ⟨e, -, hrun⟩ := nextCounter_run s
  · rw [hrun]
    exact ⟨rfl, rfl, rfl⟩
  · rw [hrun]
    exact .refl s

theorem sendShortName (apdu : Apdu) (room : Nat) : Abiding (sendShortName C apdu room : Cli π N Bytes) :=
  bind (modify fun _ => ⟨rfl, rfl, rfl⟩) fun _ => send C apdu room

end Abiding

end Cli

/-- The method is part of the handshake, or may end the association. -/
def ClientOp.Steers : ClientOp → Prop
  | .associateRequest _ _ | .handleAssociateResponse _ | .handleHlsReplyResponse _ | .releaseRequest _
  | .handleResponse _ _ => True
  | _ => False

namespace Cli.Abiding

open ClientSession

variable (C : CryptoProvider π)

theorem hlsReplyRequest (room : Nat) : Abiding (hlsReplyRequest C room : Cli π N Bytes) := by
  have any : ClientConfig → Prop := fun _ => True
  have look : LookRules (fun _ _ (m : Cli π N _) => Abiding m) := rules
  refine bind ⟨fun s => .refl s⟩ fun config => bind ⟨fun s => .refl s⟩ fun state => ?_
  split
  · exact look.throw (P := any) _
  · split
    · exact look.throw (P := any) _
    · refine bind (look.need (P := any) _ _) fun title => bind nextCounter fun ic =>
        bind (look.authKey (P := any) C) fun key => bind (modify fun _ => ⟨rfl, rfl, rfl⟩) fun _ => ?_
      exact bind ⟨fun s => .refl s⟩ fun _ => bind ⟨fun s => .refl s⟩ fun _ =>
        bind (look.ofExcept (P := any) _) fun _ => bind nextInvokeId fun _ => send C _ room

/-- A method that is no part of the handshake. -/
theorem method (op : ClientOp) (h : ¬ op.Steers) : Abiding (op.method C : Cli π N Unit) := by
  have any : ClientConfig → Prop := fun _ => True
  have look : LookRules (fun _ _ (m : Cli π N _) => Abiding m) := rules
  have associated : Abiding (requireAssociated : Cli π N Unit) := look.requireAssociated (P := any)
  have conformance (c : Conformance) : Abiding (requireConformance c : Cli π N Unit) :=
    look.requireConformance (P := any) c
  have selection (used : Bool) : Abiding (requireSelection used : Cli π N Unit) :=
    look.requireSelection (P := any) used
  have arguments (valid : Bool) : Abiding (requireArguments valid : Cli π N Unit) :=
    look.requireArguments (P := any) valid
  have encoding (e : Emit) (room : Nat) : Abiding (encode e room : Cli π N Bytes) :=
    look.encode (P := any) e room
  have both (a b : Emit) (room : Nat) : Abiding (encodeTwo a b room : Cli π N (Bytes × Bytes)) :=
    look.encodeTwo (P := any) a b room
  have drop {α : Type} {m : Cli π N α} (hm : Abiding m) : Abiding m.drop :=
    bind hm fun _ => look.pure (P := any) ()
  cases op with
  | associateRequest | handleAssociateResponse | handleHlsReplyResponse | releaseRequest | handleResponse =>
    exact absurd trivial h
  | hlsReplyRequest room => exact drop (hlsReplyRequest C room)
  | setInvocationCounter value => exact modify fun _ => ⟨rfl, rfl, rfl⟩
  | getRequest d access room =>
    exact drop (bind associated fun _ => bind (conformance _) fun _ => bind (selection _) fun _ =>
      bind nextInvokeId fun _ => send C _ room)
  | getRequestWithList items room =>
    exact drop (bind associated fun _ => bind (conformance _) fun _ => bind (conformance _) fun _ =>
      bind (arguments _) fun _ => bind (selection _) fun _ => bind (encoding ..) fun _ =>
      bind nextInvokeId fun _ => send C _ room)
  | getNextBlockRequest n room =>
    exact drop (bind associated fun _ => bind outstandingId fun _ => send C _ room)
  | setRequest d access value room =>
    exact drop (bind associated fun _ => bind (conformance _) fun _ => bind (selection _) fun _ =>
      bind nextInvokeId fun _ => send C _ room)
  | setRequestWithList items values room =>
    exact drop (bind associated fun _ => bind (conformance _) fun _ => bind (conformance _) fun _ =>
      bind (arguments _) fun _ => bind (selection _) fun _ => bind (both ..) fun _ =>
      bind nextInvokeId fun _ => send C _ room)
  | actionRequest d parameters room =>
    exact drop (bind associated fun _ => bind (conformance _) fun _ => bind nextInvokeId fun _ =>
      send C _ room)
  | actionRequestWithList ds ps room =>
    exact drop (bind associated fun _ => bind (conformance _) fun _ => bind (conformance _) fun _ =>
      bind (arguments _) fun _ => bind (both ..) fun _ => bind nextInvokeId fun _ => send C _ room)
  | actionNextBlockRequest n room =>
    exact drop (bind associated fun _ => bind outstandingId fun _ => send C _ room)
  | accessRequest items room =>
    exact drop (bind associated fun _ => bind (conformance _) fun _ => bind (arguments _) fun _ =>
      bind (both ..) fun _ => bind ⟨fun _ => ⟨rfl, rfl, rfl⟩⟩ fun _ => send C _ room)
  | readRequest items room =>
    exact drop (bind associated fun _ => bind (look.requireShortName (P := any)) fun _ =>
      bind (conformance _) fun _ => bind (arguments _) fun _ => bind (encoding ..) fun _ =>
      sendShortName C _ room)
  | writeRequest items values room =>
    exact drop (bind (look.requireShortNameWrite (P := any) _ _) fun _ =>
      bind (look.encodeWrite (P := any) _ _) fun _ => sendShortName C _ room)
  | unconfirmedWriteRequest items values room =>
    exact drop (bind (look.requireShortNameWrite (P := any) _ _) fun _ => bind (conformance _) fun _ =>
      bind (look.encodeWrite (P := any) _ _) fun _ => sendShortName C _ room)
  | nextBlockRequest sender room =>
    refine drop ?_
    rw [nextBlockRequest_inSession]
    refine bind associated fun _ => ?_
    split
    · exact look.throw (P := any) _
    · refine bind ?_ fun i => send C _ room
      split
      · exact nextInvokeId
      · exact outstandingId

end Cli.Abiding

/-- A step that is no part of the handshake. -/
theorem ClientSession.step_abides (C : CryptoProvider π) (s : ClientSession π N) {op : ClientOp}
    (h : ¬ op.Steers) : s.Abides (s.step C op) := by
  rw [ClientSession.step_eq]
  exact (Cli.Abiding.method C op h).run s

/-! ## What the steps of the handshake do -/

namespace Cli

open ClientSession

variable (C : CryptoProvider π)

theorem Abiding.of_run {α : Type} {m : Cli π N α} (hm : Abiding m) {s t : ClientSession π N}
    {r : Except Error α} (h : m s = (r, t)) : s.Abides t := by
  have := hm.run s
  rwa [h] at this

theorem Abiding.requestInfo (config : ClientConfig) (plain : Bytes) :
    Abiding (requestInfo C config plain : Cli π N Bytes) := by
  have any : ClientConfig → Prop := fun _ => True
  have look : LookRules (fun _ _ (m : Cli π N _) => Abiding m) := rules
  unfold Cli.requestInfo
  split
  · exact look.pure (P := any) _
  · refine bind nextCounter fun ic => bind (look.need (P := any) _ _) fun title =>
      bind (look.authKey (P := any) C) fun key => bind (modify fun _ => ⟨rfl, rfl, rfl⟩) fun _ => ?_
    exact bind ⟨fun s => .refl s⟩ fun _ => bind (look.ofExcept (P := any) _) fun _ =>
      bind (look.need (P := any) _ _) fun _ => look.encode (P := any) ..

theorem Abiding.offeredKey (config : ClientConfig) :
    Abiding (offeredKey C config : Cli π N (Option Bytes)) := by
  have any : ClientConfig → Prop := fun _ => True
  have look : LookRules (fun _ _ (m : Cli π N _) => Abiding m) := rules
  unfold Cli.offeredKey
  split
  · exact bind ⟨fun s => .refl s⟩ fun _ => bind (look.need (P := any) _ _) fun _ =>
      look.pure (P := any) _
  · exact look.pure (P := any) _

/-- Where the AARQ may leave a session. -/
inductive Requested (s : ClientSession π N) (rng : Entropy) : Except Error Bytes × ClientSession π N → Prop
  /-- It was built. -/
  | built (aarq : Bytes) (t : ClientSession π N) : t.config = s.config → t.state = .associating →
    (s.config.mechanism.isHighLevel = true → rng.fill (challengeLen s.config) = .ok t.clientChallenge) →
    Requested s rng (.ok aarq, t)
  /-- It was not. -/
  | failed (e : Error) (t : ClientSession π N) : s.Abides t → Requested s rng (.error e, t)
  /-- It was not, but there is a new challenge. -/
  | redrawn (e : Error) (t : ClientSession π N) : t.config = s.config → t.state = s.state →
    rng.fill (challengeLen s.config) = .ok t.clientChallenge → Requested s rng (.error e, t)

/-- The end of the AARQ, once it is known what it authenticates itself with. -/
theorem Requested.finish {s t : ClientSession π N} {rng : Entropy} (aarq : Aarq) (room : Nat)
    (hconfig : t.config = s.config) (hfailed : ∀ e, Requested s rng (.error e, t))
    (hhigh : s.config.mechanism.isHighLevel = true →
      rng.fill (challengeLen s.config) = .ok t.clientChallenge) :
    Requested s rng ((do
      let bytes ← encode aarq.encode room
      setState .associating
      return bytes : Cli π N Bytes) t) := by
  cases hbytes : SliceWriter.encodeInto aarq.encode (zeros room) with
  | error e =>
    rw [Prog.bind_run_error ((encode_run ..).trans (by rw [hbytes]))]
    exact hfailed e
  | ok bytes =>
    rw [Prog.bind_run_ok ((encode_run ..).trans (by rw [hbytes]))]
    exact .built bytes { t with state := .associating } hconfig rfl hhigh

theorem associateRequest_requested (s : ClientSession π N) (room : Nat) (rng : Entropy) :
    Requested s rng (associateRequest C room rng s) := by
  have any : ClientConfig → Prop := fun _ => True
  have look : LookRules (fun _ _ (m : Cli π N _) => Abiding m) := Abiding.rules
  unfold associateRequest
  rw [Prog.gets_bind_run]
  split
  · exact .failed _ _ (.refl s)
  · match hkey : offeredKey C s.config s with
    | (.error e, t) =>
      rw [Prog.bind_run_error hkey]
      exact .failed _ _ ((Abiding.offeredKey C _).of_run hkey)
    | (.ok key, s₁) =>
      rw [Prog.bind_run_ok hkey]
      have h₁ := (Abiding.offeredKey C _).of_run hkey
      match hplain : encode (initiateRequest s.config key) 64 s₁ with
      | (.error e, t) =>
        rw [Prog.bind_run_error hplain]
        exact .failed _ _ (h₁.trans (Abiding.of_run (look.encode (P := any) ..) hplain))
      | (.ok plain, s₂) =>
        rw [Prog.bind_run_ok hplain]
        have h₂ := h₁.trans (Abiding.of_run (look.encode (P := any) ..) hplain)
        match hinfo : requestInfo C s.config plain s₂ with
        | (.error e, t) =>
          rw [Prog.bind_run_error hinfo]
          exact .failed _ _ (h₂.trans ((Abiding.requestInfo C ..).of_run hinfo))
        | (.ok info, s₃) =>
          rw [Prog.bind_run_ok hinfo]
          have h₃ := h₂.trans ((Abiding.requestInfo C ..).of_run hinfo)
          unfold offeredAuthentication
          split
          · cases hfill : rng.fill (challengeLen s.config) with
            | error e => exact .failed _ _ h₃
            | ok challenge =>
              simp only [Prog.ofExcept_ok, Prog.pure_bind_run, Prog.modify_bind_run, Prog.bind_assoc,
                Prog.gets_bind_run]
              exact .finish (t := { s₃ with clientChallenge := challenge }) _ room h₃.config
                (fun e => .redrawn e _ h₃.config h₃.state hfill) fun _ => hfill
          · rename_i hlow
            rw [Prog.pure_bind_run, Prog.gets_bind_run]
            exact .finish (t := s₃) _ room h₃.config (fun e => .failed e _ h₃)
              fun hhigh => absurd hhigh hlow

/-- Where an AARE may leave a session. -/
inductive Answered (s : ClientSession π N) (apdu : Bytes) (t : ClientSession π N) : Prop
  | abides : (∀ aare, ¬ s.Opens C apdu aare) → s.Abides t → Answered s apdu t
  | closed : (∀ aare, ¬ s.Opens C apdu aare) → t.config = s.config → t.state = .closed → Answered s apdu t
  /-- The session is open, or goes on to the proofs. -/
  | opened (aare : Aare) : s.Opens C apdu aare → t.config = s.config →
    t.clientChallenge = s.clientChallenge →
    t.state = (if s.config.mechanism.isHighLevel then .authenticatingHls else .associated) →
    Answered s apdu t

theorem respondingTitle_run (s : ClientSession π N) (aare : Aare) :
    (∃ e, respondingTitle aare s = (.error e, s) ∧ ∃ b, aare.respondingApTitle = some b ∧ b.length ≠ 8) ∨
      respondingTitle aare s = (.ok (), s.titled aare) ∧
        ∀ b, aare.respondingApTitle = some b → b.length = 8 := by
  unfold respondingTitle titled
  cases htitle : aare.respondingApTitle with
  | none => exact .inr ⟨rfl, nofun⟩
  | some b =>
    dsimp only [Option.map]
    cases hslice : SystemTitle.fromSlice b with
    | error e => exact .inl ⟨e, rfl, b, rfl, SystemTitle.fromSlice_error hslice⟩
    | ok title =>
      refine .inr ⟨rfl, fun b' hb => ?_⟩
      obtain rfl := Option.some.inj hb
      rw [← SystemTitle.fromSlice_ok hslice]
      exact title.length_eq

/-- The user information of an AARE that accepts is not good, or it says no, or it was taken. -/
theorem takeGranted_run (s : ClientSession π N) (aare : Aare) :
    (∃ e t, takeGranted C aare s = (.error e, t) ∧ ¬ s.Initiated C aare ∧ s.Abides t) ∨
    (∃ step t, takeGranted C aare s = (.ok (some step), t) ∧ ¬ s.Initiated C aare ∧ t.config = s.config ∧
      t.state = .closed) ∨
    ∃ t, takeGranted C aare s = (.ok none, t) ∧ s.Initiated C aare ∧ s.Abides t := by
  unfold takeGranted Initiated
  cases aare.userInformation with
  | none => exact .inr (.inr ⟨s, rfl, nofun, .refl s⟩)
  | some info =>
    dsimp only
    have hsame : s.Abides (unprotectInitiate C info s).2 := ⟨rfl, rfl, rfl⟩
    have hinfo : (unprotectInitiate C info s).1 = (s.openedInfo C info).map Opened.plain := rfl
    have hread (h : ∀ info', some info = some info' → ∃ opened r, s.openedInfo C info' = .ok opened ∧
        (readGranted (Reader.new opened.plain)).1 = .ok (.initiated r)) :
        ∃ plain r, (unprotectInitiate C info s).1 = .ok plain ∧
          (readGranted (Reader.new plain)).1 = .ok (.initiated r) := by
      obtain ⟨opened, r, hopened, hr⟩ := h info rfl
      exact ⟨opened.plain, r, by rw [hinfo, hopened]; rfl, hr⟩
    match hu : unprotectInitiate C info s with
    | (.error e, t) =>
      rw [hu] at hsame hread
      refine .inl ⟨e, t, Prog.bind_run_error hu, fun h => ?_, hsame⟩
      obtain ⟨plain, r, hplain, -⟩ := hread h
      cases hplain
    | (.ok plain, t) =>
      rw [hu] at hsame hinfo hread
      rw [Prog.bind_run_ok hu]
      cases hgranted : (readGranted (Reader.new plain)).1 with
      | error e =>
        refine .inl ⟨e, t, rfl, fun h => ?_, hsame⟩
        obtain ⟨plain', r, hplain, hr⟩ := hread h
        obtain rfl := Except.ok.inj hplain
        rw [hgranted] at hr
        cases hr
      | ok granted =>
        cases granted with
        | refused =>
          refine .inr (.inl ⟨_, _, rfl, fun h => ?_, hsame.config, rfl⟩)
          obtain ⟨plain', r, hplain, hr⟩ := hread h
          obtain rfl := Except.ok.inj hplain
          rw [hgranted] at hr
          cases hr
        | initiated r =>
          refine .inr (.inr ⟨{ t with negotiated := some r }, rfl, ?_, hsame.trans ⟨rfl, rfl, rfl⟩⟩)
          intro info' h
          obtain rfl := Option.some.inj h
          cases hopened : s.openedInfo C info with
          | error e =>
            rw [hopened] at hinfo
            cases hinfo
          | ok opened =>
            rw [hopened] at hinfo
            obtain rfl := Except.ok.inj hinfo
            exact ⟨opened, r, rfl, hgranted⟩

/-- What follows a grant: the session is open or goes on to the proofs, or there is no challenge. -/
theorem openSession_run (s : ClientSession π N) (aare : Aare) :
    (∃ e t, openSession s.config aare s = (.error e, t) ∧ ¬ s.Challenged aare ∧ s.Abides t) ∨
    ∃ step t, openSession s.config aare s = (.ok step, t) ∧ s.Challenged aare ∧ t.config = s.config ∧
      t.clientChallenge = s.clientChallenge ∧
      t.state = (if s.config.mechanism.isHighLevel then .authenticatingHls else .associated) := by
  unfold openSession Challenged
  rw [Prog.modify_bind_run]
  have hs : s.Abides (if s.config.security.dedicated then
      { s with protector := s.protector.setDedicated true } else s) := by
    split <;> exact ⟨rfl, rfl, rfl⟩
  generalize (if s.config.security.dedicated then
    { s with protector := s.protector.setDedicated true } else s) = t at hs ⊢
  cases hhigh : s.config.mechanism.isHighLevel with
  | false => exact .inr ⟨_, _, rfl, nofun, hs.config, hs.challenge, rfl⟩
  | true =>
    rw [if_pos rfl]
    cases hc : aare.respondingAuthenticationValue with
    | none => exact .inl ⟨_, t, rfl, by simp, hs⟩
    | some c =>
      simp only [need, Prog.pure_bind_run]
      split
      · rename_i hlen
        exact .inl ⟨_, t, rfl, by simpa using hlen, hs⟩
      · rename_i hlen
        exact .inr ⟨_, _, rfl, fun _ => ⟨c, rfl, by omega⟩, hs.config, hs.challenge, rfl⟩

/-- An AARE names something else than was proposed. -/
theorem other_iff {α : Type} [BEq α] [LawfulBEq α] {named : Option α} {proposed : α} :
    named.any (· != proposed) = true ↔ ¬ ∀ a, named = some a → a = proposed := by
  cases named <;> simp

/-- The end of the handling of an AARE, once it is known to be the one that was asked for. -/
theorem Answered.granted {s : ClientSession π N} {apdu : Bytes} {aare : Aare}
    (hd : Read.fromBytes Aare.decode apdu = .ok aare)
    (hopens : (s.titled aare).Initiated C aare → s.Challenged aare → s.Opens C apdu aare) :
    Answered C s apdu ((do
      match ← takeGranted C aare with
      | some step => return step
      | none => openSession s.config aare : Cli π N AssociationStep) (s.titled aare)).2 := by
  have ht := s.titled_abides aare
  have only (aare' : Aare) (h : s.Opens C apdu aare') : s.Opens C apdu aare := by
    obtain rfl := Except.ok.inj (h.decoded.symm.trans hd)
    exact h
  obtain ⟨e, u, hrun, hno, hu⟩ | ⟨step, u, hrun, hno, hconfig, hstate⟩ | ⟨u, hrun, hinfo, hu⟩ :=
    takeGranted_run C (s.titled aare) aare
  · rw [Prog.bind_run_error hrun]
    exact .abides (fun _ h => hno (only _ h).information) (ht.trans hu)
  · rw [Prog.bind_run_ok hrun]
    exact .closed (fun _ h => hno (only _ h).information) (hconfig.trans ht.config) hstate
  · rw [Prog.bind_run_ok hrun]
    have hsame := ht.trans hu
    have hopen := openSession_run u aare
    unfold Challenged at hopen
    rw [hsame.config] at hopen
    obtain ⟨e, v, hrun, hno, hv⟩ | ⟨step, v, hrun, hgiven, hconfig, hchallenge, hstate⟩ := hopen
    · dsimp only
      rw [hrun]
      exact .abides (fun _ h => hno (only _ h).challenge) (hsame.trans hv)
    · dsimp only
      rw [hrun]
      exact .opened aare (hopens hinfo hgiven) hconfig (hchallenge.trans hsame.challenge) hstate

theorem handleAssociateResponse_answered (s : ClientSession π N) (apdu : Bytes) :
    Answered C s apdu (handleAssociateResponse C apdu s).2 := by
  unfold handleAssociateResponse
  split
  · rename_i hhead
    rw [setState, Prog.modify_bind_run]
    cases Read.fromBytes ExceptionResponse.decode (apdu.drop 1) <;>
      exact .closed (fun _ h => h.head hhead) rfl rfl
  · rename_i hhead
    cases hd : Read.fromBytes Aare.decode apdu with
    | error e => exact .abides (fun _ h => nomatch hd.symm.trans h.decoded) (.refl s)
    | ok aare =>
      have only (aare' : Aare) (h : s.Opens C apdu aare') : s.Opens C apdu aare := by
        obtain rfl := Except.ok.inj (h.decoded.symm.trans hd)
        exact h
      rw [Prog.ofExcept_ok, Prog.pure_bind_run]
      obtain ⟨e, hrun, b, hb, hlen⟩ | ⟨hrun, htitle⟩ := respondingTitle_run s aare
      · rw [Prog.bind_run_error hrun]
        exact .abides (fun _ h => hlen ((only _ h).title b hb)) (.refl s)
      · have ht := s.titled_abides aare
        have hproposed : (s.titled aare).applicationContext = s.applicationContext := by
          unfold applicationContext
          rw [ht.config]
        rw [Prog.bind_run_ok hrun, Prog.gets_bind_run, Prog.gets_bind_run, ht.config, hproposed]
        split
        · rename_i hrefused
          refine .closed (fun _ h => ?_) ht.config rfl
          rw [(only _ h).accepted] at hrefused
          cases hrefused
        · rename_i haccepted
          split
          · rename_i hcontext
            exact .closed (fun _ h => other_iff.mp hcontext (only _ h).context) ht.config rfl
          · rename_i hcontext
            split
            · rename_i hmechanism
              exact .closed (fun _ h => other_iff.mp hmechanism (only _ h).mechanism) ht.config rfl
            · rename_i hmechanism
              rw [other_iff, not_not] at hcontext hmechanism
              split
              · rename_i hnamed
                rw [Option.isNone_iff_eq_none] at hnamed
                exact .closed (fun _ h => (only _ h).named hnamed.1 hnamed.2) ht.config rfl
              · rename_i hnamed
                rw [Option.isNone_iff_eq_none] at hnamed
                exact .granted C hd fun hinfo hgiven => ⟨hhead, hd, htitle, by simpa using haccepted, hcontext,
                  hmechanism, fun hne hnone => hnamed ⟨hne, hnone⟩, hinfo, hgiven⟩

/-- In whatever state the session is. -/
theorem handleAssociateResponse_opened {s : ClientSession π N} {apdu : Bytes} {aare : Aare}
    (h : s.Opens C apdu aare) : (handleAssociateResponse C apdu s).2.state =
      if s.config.mechanism.isHighLevel then .authenticatingHls else .associated := by
  cases handleAssociateResponse_answered C s apdu with
  | abides hno => exact absurd h (hno aare)
  | closed hno => exact absurd h (hno aare)
  | opened _ _ _ _ hstate => exact hstate

/-- Where the answer to the proof of the client may leave a session. -/
inductive Verified (s : ClientSession π N) (apdu : Bytes) (t : ClientSession π N) : Prop
  | abides : s.Abides t → Verified s apdu t
  | closed : t.config = s.config → t.state = .closed → Verified s apdu t
  /-- The server has shown who it is. -/
  | convinced : s.Convinces C apdu → t.config = s.config → t.clientChallenge = s.clientChallenge →
    t.state = .associated → Verified s apdu t

theorem handleHlsReplyResponse_verified (s : ClientSession π N) (apdu : Bytes) :
    Verified C s apdu (handleHlsReplyResponse C apdu s).2 := by
  unfold handleHlsReplyResponse
  have hsame : s.Abides (unprotectInto C apdu 512 s).2 ∧
      (unprotectInto C apdu 512 s).2.serverSystemTitle = s.serverSystemTitle ∧
      (unprotectInto C apdu 512 s).2.protector = s.protector := ⟨⟨rfl, rfl, rfl⟩, rfl, rfl⟩
  match hu : unprotectInto C apdu 512 s with
  | (.error e, t) =>
    rw [hu] at hsame
    rw [Prog.bind_run_error hu]
    exact .abides hsame.1
  | (.ok plain, t) =>
    rw [hu] at hsame
    obtain ⟨habides, htitle, hprotector⟩ := hsame
    rw [Prog.bind_run_ok hu]
    cases hd : Apdu.fromBytes plain with
    | error e => exact .abides habides
    | ok d =>
      rw [Prog.ofExcept_ok, Prog.pure_bind_run]
      split
      · rename_i i response
        split
        · exact .closed habides.config rfl
        · rename_i hsuccess
          obtain ⟨proof, hproof, hneed⟩ | ⟨-, hneed⟩ :=
            need_run (hlsProof response) .unexpectedMessage t
          · rw [Prog.bind_run_ok hneed, Prog.gets_bind_run]
            obtain ⟨peer, hpeer, hneed⟩ | ⟨-, hneed⟩ :=
              need_run t.serverSystemTitle .unexpectedMessage t
            · rw [Prog.bind_run_ok hneed]
              unfold authKey
              rw [Prog.bind_assoc, Prog.gets_bind_run]
              obtain ⟨key, hkey, hneed⟩ | ⟨-, hneed⟩ :=
                need_run (C.authenticationKey t.protector.provider) .unsupported t
              · rw [Prog.bind_run_ok hneed, Prog.gets_bind_run, Prog.gets_bind_run]
                cases hverify : t.protector.verifyHlsGmac C peer key t.clientChallenge proof with
                | error e => exact .abides habides
                | ok =>
                  rw [hprotector] at hkey hverify
                  rw [habides.challenge] at hverify
                  exact .convinced ⟨plain, i, response, proof, peer, key, congrArg Prod.fst hu, hd,
                    by simpa using hsuccess, hproof, htitle.symm.trans hpeer, hkey, hverify⟩ habides.config
                    habides.challenge rfl
              · rw [Prog.bind_run_error hneed]
                exact .abides habides
            · rw [Prog.bind_run_error hneed]
              exact .abides habides
          · rw [Prog.bind_run_error hneed]
            exact .abides habides
      · exact .abides habides

/-- In whatever state the session is. -/
theorem handleHlsReplyResponse_convinced {s : ClientSession π N} {apdu : Bytes} (h : s.Convinces C apdu) :
    (handleHlsReplyResponse C apdu s).2.state = .associated := by
  obtain ⟨plain, i, response, proof, peer, key, hu, hd, hsuccess, hproof, hpeer, hkey, hverify⟩ := h
  have hrun : unprotectInto C apdu 512 s = (.ok plain, (unprotectInto C apdu 512 s).2) := Prod.ext hu rfl
  have hsame : (unprotectInto C apdu 512 s).2.serverSystemTitle = s.serverSystemTitle ∧
      (unprotectInto C apdu 512 s).2.protector = s.protector ∧
      (unprotectInto C apdu 512 s).2.clientChallenge = s.clientChallenge := ⟨rfl, rfl, rfl⟩
  unfold handleHlsReplyResponse authKey
  rw [Prog.bind_run_ok hrun, hd]
  generalize (unprotectInto C apdu 512 s).2 = t at hsame ⊢
  obtain ⟨htitle, hprotector, hchallenge⟩ := hsame
  simp only [Prog.ofExcept_ok, Prog.pure_bind_run, hsuccess, Bool.not_true, Bool.false_eq_true, if_false, hproof,
    need, Prog.gets_bind_run, htitle, hpeer, Prog.bind_assoc, hprotector, hkey, hchallenge, hverify]
  rfl

theorem releaseRequest_left (s : ClientSession π N) (room : Nat) :
    s.Abides (releaseRequest room s).2 ∨
      (releaseRequest room s).2.config = s.config ∧ (releaseRequest room s).2.state = .releasing := by
  unfold releaseRequest
  rw [Prog.bind_run, encode_run]
  cases SliceWriter.encodeInto (Rlrq.encode { reason := some .normal, userInformation := none })
      (zeros room) with
  | error e => exact .inl (.refl s)
  | ok bytes => exact .inr ⟨rfl, rfl⟩

theorem handleResponse_left (s : ClientSession π N) (apdu : Bytes) (size : Nat) :
    s.Abides (handleResponse C apdu size s).2 ∨
      (handleResponse C apdu size s).2.config = s.config ∧
        (handleResponse C apdu size s).2.state = .closed := by
  unfold handleResponse
  have hsame : s.Abides (unprotectInto C apdu size s).2 := ⟨rfl, rfl, rfl⟩
  match hu : unprotectInto C apdu size s with
  | (.error e, t) =>
    rw [hu] at hsame
    rw [Prog.bind_run_error hu]
    exact .inl hsame
  | (.ok plain, t) =>
    rw [hu] at hsame
    rw [Prog.bind_run_ok hu]
    cases hd : Apdu.fromBytes plain with
    | error e => exact .inl hsame
    | ok d =>
      rw [Prog.ofExcept_ok, Prog.pure_bind_run, Prog.gets_bind_run]
      split
      · exact .inl hsame
      · cases hr : d.response with
        | error e => exact .inl hsame
        | ok r =>
          rw [Prog.ofExcept_ok, Prog.pure_bind_run, Prog.modify_bind_run, log, Prog.modify_bind_run]
          by_cases hreleased : r = .released
          · rw [if_pos hreleased]
            exact .inr ⟨hsame.config, rfl⟩
          · rw [if_neg hreleased]
            exact .inl (hsame.trans ⟨rfl, rfl, rfl⟩)

end Cli

namespace ClientSession

variable (C : CryptoProvider π)

/-- What a step may do to the handshake. -/
inductive Moved (s : ClientSession π N) (op : ClientOp) (t : ClientSession π N) : Prop
  | abides : s.Abides t → Moved s op t
  /-- The association is over. -/
  | left : t.config = s.config → t.state = .closed ∨ t.state = .releasing → Moved s op t
  /-- An association is asked for. -/
  | asked (room : Nat) (rng : Entropy) (aarq : Bytes) : op = .associateRequest room rng →
    (Cli.associateRequest C room rng s).1 = .ok aarq → t.config = s.config → t.state = .associating →
    (s.config.mechanism.isHighLevel = true →
      rng.fill (Cli.challengeLen s.config) = .ok t.clientChallenge) → Moved s op t
  /-- No association is asked for, but there is a new challenge. -/
  | redrawn (room : Nat) (rng : Entropy) : op = .associateRequest room rng → t.config = s.config →
    t.state = s.state → rng.fill (Cli.challengeLen s.config) = .ok t.clientChallenge → Moved s op t
  /-- The server accepts. -/
  | opened (apdu : Bytes) (aare : Aare) : op = .handleAssociateResponse apdu → s.Opens C apdu aare →
    t.config = s.config → t.clientChallenge = s.clientChallenge →
    t.state = (if s.config.mechanism.isHighLevel then .authenticatingHls else .associated) → Moved s op t
  /-- The server has shown who it is. -/
  | convinced (apdu : Bytes) : op = .handleHlsReplyResponse apdu → s.Convinces C apdu →
    t.config = s.config → t.clientChallenge = s.clientChallenge → t.state = .associated → Moved s op t

theorem step_moved (s : ClientSession π N) (op : ClientOp) : s.Moved C op (s.step C op) := by
  by_cases hsteers : op.Steers
  · cases op with
    | associateRequest room rng =>
      have h := Cli.associateRequest_requested C s room rng
      change s.Moved C _ (Cli.associateRequest C room rng s).2
      generalize hrun : Cli.associateRequest C room rng s = out at h ⊢
      cases h with
      | built aarq t hconfig hstate hdrawn =>
        exact .asked room rng aarq rfl (congrArg Prod.fst hrun) hconfig hstate hdrawn
      | failed e t h => exact .abides h
      | redrawn e t hconfig hstate hdrawn => exact .redrawn room rng rfl hconfig hstate hdrawn
    | handleAssociateResponse apdu =>
      have h := Cli.handleAssociateResponse_answered C s apdu
      cases h with
      | abides _ h => exact .abides h
      | closed _ hconfig hstate => exact .left hconfig (.inl hstate)
      | opened aare hopens hconfig hchallenge hstate =>
        exact .opened apdu aare rfl hopens hconfig hchallenge hstate
    | handleHlsReplyResponse apdu =>
      have h := Cli.handleHlsReplyResponse_verified C s apdu
      cases h with
      | abides h => exact .abides h
      | closed hconfig hstate => exact .left hconfig (.inl hstate)
      | convinced hconvinces hconfig hchallenge hstate =>
        exact .convinced apdu rfl hconvinces hconfig hchallenge hstate
    | releaseRequest room =>
      obtain h | ⟨hconfig, hstate⟩ := Cli.releaseRequest_left s room
      · exact .abides h
      · exact .left hconfig (.inr hstate)
    | handleResponse apdu size =>
      obtain h | ⟨hconfig, hstate⟩ := Cli.handleResponse_left C s apdu size
      · exact .abides h
      · exact .left hconfig (.inl hstate)
    | _ => exact hsteers.elim
  · exact .abides (step_abides C s hsteers)

end ClientSession

end Dlms
