import DlmsCosem.Client.Blocks
import DlmsCosem.Client.Handshake

/-!
# How a session comes to be open

A session asks for an association, takes the AARE that accepts it, and with a mechanism of high-level
security goes through the proofs. As the methods do not look at the state, an AARE that nobody asked for
opens a session as well; and one that accepts may leave the InitiateResponse out, or bring it in the clear,
where the session protects what it sends (`unasked_aare_opens`). Where the methods are called in sequence
(`Sequenced`), a session that is open is the outcome of an association that it asked for
(`associated_as_asked`).
-/

namespace Dlms

variable {π : Type} {N : Nat}

namespace ClientSession

variable (C : CryptoProvider π)

/-- The session after some methods. -/
abbrev run (s : ClientSession π N) (ops : List ClientOp) : ClientSession π N :=
  Run.after (fun s op => s.step C op) s ops

/-! ## The past of a session -/

/-- There is an association, or one on its way. -/
def Live (s : ClientSession π N) : Prop := s.state ≠ .idle ∧ s.state ≠ .closed

section Past

variable (s : ClientSession π N)

/-- There was such a step, and the session was live ever since. -/
abbrev Lately (event : List ClientOp → ClientOp → Prop) (ops : List ClientOp) : Prop :=
  Run.Since (fun s op => s.step C op) Live event s ops

/-- The session built an AARQ. -/
def Asked (ops : List ClientOp) : Prop :=
  s.Lately C (fun past op => ∃ room rng aarq, op = .associateRequest room rng ∧
    (Cli.associateRequest C room rng (s.run C past)).1 = .ok aarq) ops

/-- The session drew the challenge that it has. -/
def Drawn (ops : List ClientOp) : Prop :=
  s.Lately C (fun _ op => ∃ room rng, op = .associateRequest room rng ∧
    rng.fill (Cli.challengeLen s.config) = .ok (s.run C ops).clientChallenge) ops

/-- The session took the AARE to its AARQ, with an InitiateResponse under protection where there is some. -/
def Agreed (ops : List ClientOp) : Prop :=
  s.Lately C (fun past op => ∃ apdu aare, op = .handleAssociateResponse apdu ∧
    (s.run C past).state = .associating ∧ s.Asked C past ∧ (s.run C past).Opens C apdu aare ∧
    (s.config.security.isNone = false → ∃ info, aare.userInformation = some info ∧
      ((s.run C past).titled aare).Sealed C info)) ops

/-- The session sent its proof, and waits for that of the server ever since. -/
def Replied (ops : List ClientOp) : Prop :=
  Run.Since (fun s op => s.step C op) (fun s => s.state = .authenticatingHls) (fun past op =>
    ∃ room bytes, op = .hlsReplyRequest room ∧
      (Cli.hlsReplyRequest C room (s.run C past)).1 = .ok bytes) s ops

/-- The session verified the proof of the server over its own challenge, once it had sent its own proof. -/
def Proved (ops : List ClientOp) : Prop :=
  s.Lately C (fun past op => ∃ apdu, op = .handleHlsReplyResponse apdu ∧
    (s.run C past).state = .authenticatingHls ∧ (s.run C past).Convinces C apdu ∧ s.Drawn C past ∧
    s.Agreed C past ∧ s.Replied C past) ops

/-- The session is the outcome of an association that it asked for. -/
structure Outcome (ops : List ClientOp) : Prop where
  asked : s.Asked C ops
  agreed : s.Agreed C ops
  proved : s.config.mechanism.isHighLevel = true → s.Proved C ops

/-- The method is called where the session waits for it. An AARE that would open the session comes while
one is awaited, and with user information that is not in the clear where there is protection; a proof that
would convince the client comes after its own. -/
def InSequence (past : List ClientOp) : ClientOp → Prop
  | .handleAssociateResponse apdu => ∀ aare, (s.run C past).Opens C apdu aare →
    (s.run C past).state = .associating ∧ (s.config.security.isNone = false →
      ∃ info, aare.userInformation = some info ∧ info.head? ≠ some ApduTag.initiateResponse.asU8)
  | .handleHlsReplyResponse apdu => (s.run C past).Convinces C apdu → s.Replied C past
  | _ => True

/-- All of the methods are. -/
def Sequenced (ops : List ClientOp) : Prop :=
  ∀ past op, past ++ [op] <+: ops → s.InSequence C past op

/-- What is known of the past where a session is on its way, or open. -/
structure Accounted (ops : List ClientOp) : Prop where
  config : (s.run C ops).config = s.config
  associating : (s.run C ops).state = .associating →
    s.Asked C ops ∧ (s.config.mechanism.isHighLevel = true → s.Drawn C ops)
  authenticating : (s.run C ops).state = .authenticatingHls →
    s.Asked C ops ∧ (s.config.mechanism.isHighLevel = true → s.Drawn C ops) ∧ s.Agreed C ops
  associated : (s.run C ops).state = .associated → s.Outcome C ops

end Past

variable {C} {s : ClientSession π N} {ops : List ClientOp} {op : ClientOp}

theorem Sequenced.nil : s.Sequenced C [] := fun past op hp => by simp at hp

theorem Sequenced.of_prefix {ops' : List ClientOp} (h : s.Sequenced C ops) (hp : ops' <+: ops) :
    s.Sequenced C ops' := fun past op hop => h past op (hop.trans hp)

theorem Sequenced.concat (h : s.Sequenced C ops) (hop : s.InSequence C ops op) :
    s.Sequenced C (ops ++ [op]) := by
  intro past op' hp
  obtain heq | hp := List.prefix_concat_iff.mp hp
  · obtain ⟨rfl, hlast⟩ := List.append_inj' heq rfl
    obtain rfl := List.singleton_inj.mp hlast
    exact hop
  · exact h past op' hp

theorem Drawn.later (h : s.Drawn C ops) (hlive : (s.run C (ops ++ [op])).Live)
    (hchallenge : (s.run C (ops ++ [op])).clientChallenge = (s.run C ops).clientChallenge) :
    s.Drawn C (ops ++ [op]) := by
  unfold Drawn
  rw [hchallenge]
  exact Run.Since.later h hlive

theorem Live.of_state {t : SessionState} (hs : s.state = t) (hidle : t ≠ .idle) (hclosed : t ≠ .closed) :
    s.Live := ⟨hs.trans_ne hidle, hs.trans_ne hclosed⟩

/-- What is behind an open session stays behind it. -/
theorem Outcome.later (h : s.Outcome C ops) (hlive : (s.run C (ops ++ [op])).Live) :
    s.Outcome C (ops ++ [op]) where
  asked := Run.Since.later h.asked hlive
  agreed := Run.Since.later h.agreed hlive
  proved hhigh := Run.Since.later (h.proved hhigh) hlive

/-- A step that changes nothing, or no more than the challenge. -/
theorem Accounted.later (h : s.Accounted C ops)
    (hconfig : (s.run C (ops ++ [op])).config = (s.run C ops).config)
    (hstate : (s.run C (ops ++ [op])).state = (s.run C ops).state)
    (hdrawn : (s.run C (ops ++ [op])).Live → s.Drawn C ops → s.Drawn C (ops ++ [op])) :
    s.Accounted C (ops ++ [op]) where
  config := hconfig.trans h.config
  associating hs := by
    have hlive : (s.run C (ops ++ [op])).Live := .of_state hs nofun nofun
    obtain ⟨hasked, hd⟩ := h.associating (hstate ▸ hs)
    exact ⟨Run.Since.later hasked hlive, fun hhigh => hdrawn hlive (hd hhigh)⟩
  authenticating hs := by
    have hlive : (s.run C (ops ++ [op])).Live := .of_state hs nofun nofun
    obtain ⟨hasked, hd, hagreed⟩ := h.authenticating (hstate ▸ hs)
    exact ⟨Run.Since.later hasked hlive, fun hhigh => hdrawn hlive (hd hhigh),
      Run.Since.later hagreed hlive⟩
  associated hs := (h.associated (hstate ▸ hs)).later (.of_state hs nofun nofun)

/-- An association is asked for. -/
theorem Accounted.ask {room : Nat} {rng : Entropy} {aarq : Bytes} (h : s.Accounted C ops)
    (hok : (Cli.associateRequest C room rng (s.run C ops)).1 = .ok aarq)
    (hconfig : (s.run C (ops ++ [.associateRequest room rng])).config = (s.run C ops).config)
    (hstate : (s.run C (ops ++ [.associateRequest room rng])).state = .associating)
    (hfill : s.config.mechanism.isHighLevel = true → rng.fill (Cli.challengeLen s.config) =
      .ok (s.run C (ops ++ [.associateRequest room rng])).clientChallenge) :
    s.Accounted C (ops ++ [.associateRequest room rng]) := by
  have hlive : (s.run C (ops ++ [.associateRequest room rng])).Live := .of_state hstate nofun nofun
  refine ⟨hconfig.trans h.config, fun _ => ⟨?_, fun hhigh => ?_⟩, fun hs => ?_, fun hs => ?_⟩
  · exact Run.Since.now ⟨room, rng, aarq, rfl, hok⟩ hlive
  · exact Run.Since.now ⟨room, rng, rfl, hfill hhigh⟩ hlive
  · rw [hstate] at hs
    cases hs
  · rw [hstate] at hs
    cases hs

/-- The AARE comes that was asked for. -/
theorem Agreed.now {apdu : Bytes} {aare : Aare} (hconfig : (s.run C ops).config = s.config)
    (hasked : s.Asked C ops) (hop : s.InSequence C ops (.handleAssociateResponse apdu))
    (hopens : (s.run C ops).Opens C apdu aare)
    (hlive : (s.run C (ops ++ [.handleAssociateResponse apdu])).Live) :
    s.Agreed C (ops ++ [.handleAssociateResponse apdu]) := by
  obtain ⟨hassociating, hinfo⟩ := hop aare hopens
  refine Run.Since.now ⟨apdu, aare, rfl, hassociating, hasked, hopens, fun hsecured => ?_⟩ hlive
  obtain ⟨info, hi, hbare⟩ := hinfo hsecured
  obtain ⟨opened, r, hopened, hr⟩ := hopens.information info hi
  refine ⟨info, hi, openedInfo_sealed ?_ hopened hr hbare⟩
  rw [((s.run C ops).titled_abides aare).config, hconfig]
  exact hsecured

theorem Accounted.agree {apdu : Bytes} {aare : Aare} (h : s.Accounted C ops)
    (hop : s.InSequence C ops (.handleAssociateResponse apdu)) (hopens : (s.run C ops).Opens C apdu aare)
    (hconfig : (s.run C (ops ++ [.handleAssociateResponse apdu])).config = (s.run C ops).config)
    (hchallenge : (s.run C (ops ++ [.handleAssociateResponse apdu])).clientChallenge =
      (s.run C ops).clientChallenge)
    (hstate : (s.run C (ops ++ [.handleAssociateResponse apdu])).state =
      if s.config.mechanism.isHighLevel then .authenticatingHls else .associated) :
    s.Accounted C (ops ++ [.handleAssociateResponse apdu]) := by
  obtain ⟨hasked, hdrawn⟩ := h.associating (hop aare hopens).1
  have hlive : (s.run C (ops ++ [.handleAssociateResponse apdu])).Live := by
    cases hhigh : s.config.mechanism.isHighLevel with
    | false => exact .of_state (t := .associated) (hstate.trans (by rw [hhigh]; rfl)) nofun nofun
    | true => exact .of_state (t := .authenticatingHls) (hstate.trans (by rw [hhigh]; rfl)) nofun nofun
  have hasked' : s.Asked C (ops ++ [.handleAssociateResponse apdu]) := Run.Since.later hasked hlive
  have hagreed := Agreed.now h.config hasked hop hopens hlive
  refine ⟨hconfig.trans h.config, fun hs => ?_, fun _ => ?_, fun hs => ⟨hasked', hagreed, fun hhigh => ?_⟩⟩
  · rw [hs] at hstate
    split at hstate <;> cases hstate
  · exact ⟨hasked', fun hhigh => (hdrawn hhigh).later hlive hchallenge, hagreed⟩
  · rw [hs, hhigh] at hstate
    cases hstate

/-- The proof of the server comes, after that of the client. -/
theorem Accounted.prove {apdu : Bytes} (h : s.Accounted C ops)
    (hop : s.InSequence C ops (.handleHlsReplyResponse apdu)) (hconvinces : (s.run C ops).Convinces C apdu)
    (hconfig : (s.run C (ops ++ [.handleHlsReplyResponse apdu])).config = (s.run C ops).config)
    (hstate : (s.run C (ops ++ [.handleHlsReplyResponse apdu])).state = .associated) :
    s.Accounted C (ops ++ [.handleHlsReplyResponse apdu]) := by
  have hlive : (s.run C (ops ++ [.handleHlsReplyResponse apdu])).Live := .of_state hstate nofun nofun
  have hreplied : s.Replied C ops := hop hconvinces
  have hauthenticating : (s.run C ops).state = .authenticatingHls := Run.Since.holds hreplied
  obtain ⟨hasked, hdrawn, hagreed⟩ := h.authenticating hauthenticating
  refine ⟨hconfig.trans h.config, fun hs => ?_, fun hs => ?_, fun _ => ⟨?_, ?_, fun hhigh => ?_⟩⟩
  · rw [hstate] at hs
    cases hs
  · rw [hstate] at hs
    cases hs
  · exact Run.Since.later hasked hlive
  · exact Run.Since.later hagreed hlive
  · exact Run.Since.now ⟨apdu, rfl, hauthenticating, hconvinces, hdrawn hhigh, hagreed, hreplied⟩ hlive

/-- One step in sequence. -/
theorem Accounted.concat (h : s.Accounted C ops) (hop : s.InSequence C ops op) :
    s.Accounted C (ops ++ [op]) := by
  have hmoved := step_moved C (s.run C ops) op
  have hstep : (s.run C ops).step C op = s.run C (ops ++ [op]) := (Run.after_concat ..).symm
  rw [hstep] at hmoved
  cases hmoved with
  | abides habides =>
    exact h.later habides.config habides.state fun hlive hdrawn => hdrawn.later hlive habides.challenge
  | left hconfig hstate =>
    refine ⟨hconfig.trans h.config, fun hs => ?_, fun hs => ?_, fun hs => ?_⟩
    all_goals
      rw [hs] at hstate
      obtain hstate | hstate := hstate <;> cases hstate
  | asked room rng aarq heq hok hconfig hstate hfill =>
    subst heq
    rw [h.config] at hfill
    exact h.ask hok hconfig hstate hfill
  | redrawn room rng heq hconfig hstate hfill =>
    rw [h.config] at hfill
    exact h.later hconfig hstate fun hlive _ => Run.Since.now ⟨room, rng, heq, hfill⟩ hlive
  | opened apdu aare heq hopens hconfig hchallenge hstate =>
    subst heq
    rw [h.config] at hstate
    exact h.agree hop hopens hconfig hchallenge hstate
  | convinced apdu heq hconvinces hconfig _ hstate =>
    subst heq
    exact h.prove hop hconvinces hconfig hstate

theorem Sequenced.accounted {config : ClientConfig} {provider : π}
    (h : (ClientSession.new N config provider).Sequenced C ops) :
    (ClientSession.new N config provider).Accounted C ops := by
  induction ops using List.reverseRecOn with
  | nil => exact ⟨rfl, nofun, nofun, nofun⟩
  | append_singleton ops op ih =>
    exact (ih (h.of_prefix (List.prefix_append ..))).concat (h ops op List.prefix_rfl)

/-- In a run whose methods are called in sequence, a session that is open is the outcome of an association
that it asked for. -/
theorem associated_as_asked (C : CryptoProvider π) (config : ClientConfig) (provider : π)
    (ops : List ClientOp) (hops : (ClientSession.new N config provider).Sequenced C ops)
    (hstate : ((ClientSession.new N config provider).run C ops).state = .associated) :
    (ClientSession.new N config provider).Outcome C ops := hops.accounted.associated hstate

/-! ### A handshake with GMAC -/

/-- A client that protects what it sends, and shows who it is. -/
def provingConfig : ClientConfig where
  systemTitle := some sampleTitle
  mechanism := .highGmac
  security := samplePolicy

/-- The InitiateResponse of 1, 2, .. 8, under protection. -/
def provingInfo : Bytes :=
  [0x28, 0x1F, 0x30, 0x00, 0x00, 0x00, 0x01, 15, 7, 13, 102, 38, 11, 7, 7, 7, 7, 11, 7, 7, 14,
    61, 199, 121, 50, 213, 147, 8, 51, 174, 180, 113, 118]

/-- The AARE that it is in. -/
def provingAare : Bytes :=
  [0x61, 0x61, 0xA1, 0x09, 0x06, 0x07, 0x60, 0x85, 0x74, 0x05, 0x08, 0x01, 0x03, 0xA2, 0x03, 0x02, 0x01,
    0x00, 0xA3, 0x05, 0xA1, 0x03, 0x02, 0x01, 0x00, 0xA4, 0x0A, 0x04, 0x08, 1, 2, 3, 4, 5, 6, 7, 8,
    0x88, 0x02, 0x07, 0x80, 0x89, 0x07, 0x60, 0x85, 0x74, 0x05, 0x08, 0x02, 0x05,
    0xAA, 0x0A, 0x80, 0x08, 1, 1, 2, 2, 3, 3, 4, 4, 0xBE, 0x23, 0x04, 0x21] ++ provingInfo

/-- The proof of 1, 2, .. 8 over a challenge of sixteen zeros, under protection. -/
def provingAnswer : Bytes :=
  [0xCF, 0x2A, 0x30, 0x00, 0x00, 0x00, 0x03, 206, 8, 200, 7, 8, 7, 16, 24, 23, 7, 7, 7, 9, 242, 255, 35,
    135, 11, 52, 160, 227, 36, 43, 60, 99, 20, 159, 91, 170, 129, 197, 138, 59, 50, 242, 159, 226]

/-- The frame of the client's own proof. -/
def provingReply : Bytes :=
  [0xCB, 0x31, 0x30, 0x00, 0x00, 0x00, 0x03, 202, 8, 72, 7, 22, 7, 7, 47, 7, 7, 6, 8, 8, 16, 24, 23, 7, 7,
    7, 9, 119, 157, 154, 33, 75, 186, 122, 126, 254, 144, 129, 51, 115, 102, 237, 136, 178, 183, 39, 231,
    208, 88, 17, 84]

theorem associated_as_asked_gmac :
    (ClientSession.new 64 provingConfig SampleKeys.authenticating).Outcome sampleProvider
      [.associateRequest 256 .zeros, .handleAssociateResponse provingAare, .hlsReplyRequest 128,
        .handleHlsReplyResponse provingAnswer] := by
  refine associated_as_asked sampleProvider provingConfig .authenticating _ ?_ (by decide +kernel)
  have hasked : (ClientSession.new 64 provingConfig SampleKeys.authenticating).Sequenced sampleProvider
      ([] ++ [.associateRequest 256 .zeros]) := Sequenced.nil.concat trivial
  have hagreed : (ClientSession.new 64 provingConfig SampleKeys.authenticating).Sequenced sampleProvider
      ([.associateRequest 256 .zeros] ++ [.handleAssociateResponse provingAare]) := by
    refine hasked.concat fun aare hopens => ⟨by decide +kernel, fun _ => ⟨provingInfo, ?_, by decide⟩⟩
    have hinfo : (Read.fromBytes Aare.decode provingAare).map Aare.userInformation =
      .ok (some provingInfo) := by decide +kernel
    rw [hopens.decoded] at hinfo
    exact Except.ok.inj hinfo
  have hreplied : (ClientSession.new 64 provingConfig SampleKeys.authenticating).Replied sampleProvider
      ([.associateRequest 256 .zeros, .handleAssociateResponse provingAare] ++ [.hlsReplyRequest 128]) :=
    Run.Since.now ⟨128, provingReply, rfl, by decide +kernel⟩ (by decide +kernel)
  change (ClientSession.new 64 provingConfig SampleKeys.authenticating).Sequenced sampleProvider
    ([.associateRequest 256 .zeros, .handleAssociateResponse provingAare] ++ [.hlsReplyRequest 128] ++
      [.handleHlsReplyResponse provingAnswer])
  exact Sequenced.concat (Sequenced.concat hagreed trivial) fun _ => hreplied

/-- An AARE that accepts and holds no more. -/
def emptyAare : Bytes :=
  [0x61, 0x17, 0xA1, 0x09, 0x06, 0x07, 0x60, 0x85, 0x74, 0x05, 0x08, 0x01, 0x03, 0xA2, 0x03, 0x02, 0x01,
    0x00, 0xA3, 0x05, 0xA1, 0x03, 0x02, 0x01, 0x00]

/-- An AARE that nobody asked for opens a session, and one without an InitiateResponse opens one that protects
what it sends. -/
theorem unasked_aare_opens :
    (¬ ∀ ops, ((ClientSession.new 64 {} SampleKeys.plain).run sampleProvider ops).state = .associated →
      (ClientSession.new 64 {} SampleKeys.plain).Outcome sampleProvider ops) ∧
    ¬ ∀ ops, ((ClientSession.new 64 { systemTitle := some sampleTitle, security := samplePolicy }
        SampleKeys.authenticating).run sampleProvider ops).state = .associated →
      (ClientSession.new 64 { systemTitle := some sampleTitle, security := samplePolicy }
        SampleKeys.authenticating).Outcome sampleProvider ops := by
  constructor
  · intro h
    obtain ⟨⟨past, op, rest, heq, ⟨room, rng, aarq, rfl, -⟩, -⟩, -, -⟩ :=
      h [.handleAssociateResponse BlockTransfer.sampleAare] (by decide +kernel)
    have hmem : ClientOp.associateRequest room rng ∈ [.handleAssociateResponse BlockTransfer.sampleAare] := by
      rw [heq]
      simp
    cases List.mem_singleton.mp hmem
  · intro h
    obtain ⟨-, ⟨past, op, rest, heq, ⟨apdu, aare, rfl, -, -, hopens, hsealed⟩, -⟩, -⟩ :=
      h [.associateRequest 256 .zeros, .handleAssociateResponse emptyAare] (by decide +kernel)
    have hmem : ClientOp.handleAssociateResponse apdu ∈
        [.associateRequest 256 .zeros, .handleAssociateResponse emptyAare] := by
      rw [heq]
      simp
    obtain rfl : apdu = emptyAare := by simpa using hmem
    obtain ⟨info, hinfo, -⟩ := hsealed rfl
    have hnone : (Read.fromBytes Aare.decode emptyAare).map Aare.userInformation = .ok none := by decide +kernel
    rw [hopens.decoded] at hnone
    rw [Except.ok.inj hnone] at hinfo
    cases hinfo

end ClientSession

end Dlms
