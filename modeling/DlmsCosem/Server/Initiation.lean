import DlmsCosem.Server.Admission
import DlmsCosem.Server.Replay

/-!
# What a ciphered association rests on

What an open association has negotiated, and its dedicated key, were taken from one InitiateRequest
or from none (`Server.Rests`). In a ciphered association that InitiateRequest came protected, as
long as no AARQ carries one that is bare (`association_rests_on_protected_initiate`): the tags that
may come without protection have the bare InitiateRequest among them whatever the policy, so one
that anybody can write is taken as well (`bare_initiate_taken`).
-/

namespace Dlms

variable {σ π : Type} {N : Nat}

/-- The last AARQ carried this InitiateRequest, in this frame. -/
def Initiated (tr : List Event) (frame : Option Frame) (init : InitiateRequest) : Prop :=
  ∃ pre aarq post, tr = pre ++ .aarq aarq :: post ∧ (∀ a, Event.aarq a ∉ post) ∧
    .initiate frame init ∈ post

theorem Initiated.append {tr ev : List Event} {frame : Option Frame} {init : InitiateRequest}
    (h : Initiated tr frame init) (hev : ∀ a, Event.aarq a ∉ ev) :
    Initiated (tr ++ ev) frame init := by
  obtain ⟨pre, aarq, post, rfl, hpost, hmem⟩ := h
  refine ⟨pre, aarq, post ++ ev, by simp, fun a ha => ?_, by simp [hmem]⟩
  rcases List.mem_append.mp ha with ha | ha
  · exact hpost a ha
  · exact hev a ha

section Rests

variable (C : CryptoProvider π)

/-- Nothing was negotiated, and there is no dedicated key. -/
structure Server.Cleared (s : Server σ π N) : Prop where
  negotiated : s.negotiated = .empty
  clientMax : s.clientMaxPduSize = s.config.maxPduSize
  dedicated : s.protector.policy.dedicated = false
  key : ∃ p, s.protector.provider = C.clearDedicatedKey p

/-- What was negotiated and the dedicated key come from an InitiateRequest that was opened under the
global key, and was protected as the policy demands at least. -/
structure Server.RestsOn (s : Server σ π N) (frame : Frame) (init : InitiateRequest) : Prop where
  initiated : Initiated s.trace (some frame) init
  policy : frame.policy = s.config.security.global
  authenticated : s.config.security.authenticated = true → frame.control.authenticated = true
  encrypted : s.config.security.encrypted = true → frame.control.encrypted = true
  negotiated : s.negotiated = s.config.conformance.negotiate init.proposedConformance
  clientMax : s.clientMaxPduSize =
    if init.clientMaxReceivePduSize = 0 then s.config.maxPduSize else init.clientMaxReceivePduSize
  key : match init.dedicatedKey with
    | none => s.protector.policy.dedicated = false ∧
      ∃ p, s.protector.provider = C.clearDedicatedKey p
    | some b => s.protector.policy.dedicated = true ∧ ∃ key p, Key.fromSlice b = .ok key ∧
      C.setDedicatedKey (C.clearDedicatedKey p) key = (.ok (), s.protector.provider)

/-- What an association rests on: nothing, or a protected InitiateRequest. -/
def Server.Rests (s : Server σ π N) : Prop :=
  s.Cleared C ∨ ∃ frame init, s.RestsOn C frame init

/-- The association rests on what it rested on. -/
def Server.StaysRested (s t : Server σ π N) : Prop := s.Rests C → t.Rests C

end Rests

/-- The user information of the AARQ is absent, or an InitiateRequest that is not protected. -/
def Aarq.BringsNothing (aarq : Aarq) : Prop :=
  aarq.userInformation = none ∨ ∃ info init, aarq.userInformation = some info ∧
    (readInitiate (Reader.new info)).1 = .ok (some init)

/-- The frame of an InitiateRequest that came in one. -/
def Event.framed : Event → Option Frame
  | .initiate frame _ => frame
  | _ => none

namespace Server

variable {C : CryptoProvider π}

theorem StaysRested.of_eq {s t : Server σ π N} (hconfig : t.config = s.config)
    (hprot : t.protector = s.protector) (hneg : t.negotiated = s.negotiated)
    (hmax : t.clientMaxPduSize = s.clientMaxPduSize) {ev : List Event}
    (hev : t.trace = s.trace ++ ev) (hq : ∀ a, Event.aarq a ∉ ev) : s.StaysRested C t := by
  rintro (h | ⟨frame, init, h⟩)
  · left
    exact ⟨by rw [hneg]; exact h.negotiated, by rw [hmax, hconfig]; exact h.clientMax,
      by rw [hprot]; exact h.dedicated, by rw [hprot]; exact h.key⟩
  · right
    refine ⟨frame, init, by rw [hev]; exact h.initiated.append hq, ?_, ?_, ?_, ?_, ?_, ?_⟩
    · rw [hconfig]; exact h.policy
    · rw [hconfig]; exact h.authenticated
    · rw [hconfig]; exact h.encrypted
    · rw [hneg, hconfig]; exact h.negotiated
    · rw [hmax, hconfig]; exact h.clientMax
    · rw [hprot]; exact h.key

theorem StaysRested.of_standing {s t : Server σ π N} (h : t.standing = s.standing) (ev : List Event)
    (hev : t.trace = s.trace ++ ev) (hq : ∀ a, Event.aarq a ∉ ev) : s.StaysRested C t :=
  .of_eq (congrArg Standing.config h) (congrArg Standing.protector h)
    (congrArg Standing.negotiated h) (congrArg Standing.clientMaxPduSize h) hev hq

theorem StaysRested.answering :
    Answering (StaysRested C : Server σ π N → Server σ π N → Prop) where
  trans _ _ _ h h' hs := h' (h hs)
  same s t h ht := .of_standing h [] (by rw [ht, List.append_nil]) (by simp)
  event s e he := by
    refine .of_standing rfl [e] rfl fun a ha => ?_
    rw [← List.mem_singleton.mp ha] at he
    exact he

/-- Clearing leaves nothing. -/
theorem begun_cleared (aarq : Aarq) (s : Server σ π N) : (s.begun C aarq).Cleared C :=
  ⟨rfl, rfl, rfl, s.protector.provider, rfl⟩

theorem Cleared.of_eq {s t : Server σ π N} (h : s.Cleared C) (hconfig : t.config = s.config)
    (hprot : t.protector = s.protector) (hneg : t.negotiated = .empty)
    (hmax : t.clientMaxPduSize = s.config.maxPduSize) : t.Cleared C where
  negotiated := hneg
  clientMax := by rw [hconfig]; exact hmax
  dedicated := by rw [hprot]; exact h.dedicated
  key := by rw [hprot]; exact h.key

/-- Neither does the calling title bring anything. -/
theorem Cleared.takeTitle {s : Server σ π N} (h : s.Cleared C) (title : SystemTitle) :
    (s.takeTitle title).Cleared C := by
  unfold Server.takeTitle
  split <;> exact h.of_eq rfl rfl h.negotiated h.clientMax

/-- A server that is open, or waits for the proof of the client, rests on what it should. -/
def Grounded (C : CryptoProvider π) (s : Server σ π N) : Prop :=
  s.state = .associated ∨ s.state = .awaitingHlsReply → s.Rests C

theorem Over.grounded {s : Server σ π N} (h : s.Over) : s.Grounded C := by
  intro hlive
  rcases h with h | h <;> rw [h] at hlive <;> simp at hlive

theorem StaysRested.grounded {s t : Server σ π N} (h : s.StaysRested C t) (ht : t.state = s.state)
    (hs : s.Grounded C) : t.Grounded C := by
  intro hlive
  rw [ht] at hlive
  exact h (hs hlive)

theorem StaysRested.of_worked {s t : Server σ π N} (h : Worked [] s t) : s.StaysRested C t := by
  obtain ⟨ev, hev, hm⟩ := h.trace
  refine .of_eq (congrArg Association.config h.association)
    (congrArg Association.protector h.association) (congrArg Association.negotiated h.association)
    (congrArg Association.clientMaxPduSize h.association) hev fun a ha => ?_
  obtain ⟨p, q, rfl⟩ := List.append_of_mem ha
  exact hm.allowed

/-- A reply leaves nothing where nothing was. -/
theorem Cleared.answering :
    Answering (fun s t : Server σ π N => s.Cleared C → t.Cleared C) where
  trans _ _ _ h h' hs := h' (h hs)
  same _ _ h _ hs := hs.of_eq (congrArg Standing.config h) (congrArg Standing.protector h)
    ((congrArg Standing.negotiated h).trans hs.negotiated)
    ((congrArg Standing.clientMaxPduSize h).trans hs.clientMax)
  event _ _ _ hs := hs.of_eq rfl rfl hs.negotiated hs.clientMax

theorem StaysRested.serving (C : CryptoProvider π) :
    Serving C (StaysRested C : Server σ π N → Server σ π N → Prop) where
  toAnswering := answering
  worked _ _ := .of_worked
  unprotected s policy plain size apdu := by
    obtain ⟨w, fs, hu, hfs⟩ := Srv.unprotect_state C s policy plain size apdu
    rw [hu]
    refine .of_eq rfl rfl rfl rfl rfl fun a h => ?_
    obtain rfl | ⟨f, rfl⟩ := hfs <;> simp at h
  request s _ _ := .of_eq rfl rfl rfl rfl rfl (by simp)

/-- The AARQ, where it is looked at, carries no InitiateRequest that is bare. -/
def NoBareInitiate (s : Server σ π N) (apdu : Bytes) : Prop :=
  ∀ aarq info, Read.fromBytes Aarq.decode apdu = .ok aarq → s.config.Accepts aarq →
    s.config.Knows aarq → (∀ b, aarq.callingApTitle = some b → b.length = 8) →
    aarq.userInformation = some info → ∀ init, (readInitiate (Reader.new info)).1 ≠ .ok (some init)

end Server

namespace Srv

variable (C : CryptoProvider π) (S : ObjectStore σ)

/-! ## The handshake -/

/-- An AARQ finds nothing left. -/
theorem Called.cleared {s s₁ : Server σ π N} {aarq : Aarq} (h : Called C s aarq s₁) :
    s₁.Cleared C := by
  obtain ⟨-, rfl⟩ | ⟨b, title, -, -, rfl⟩ := h
  · exact Server.begun_cleared aarq s
  · exact (Server.begun_cleared aarq s).takeTitle title

theorem Called.trace {s s₁ : Server σ π N} {aarq : Aarq} (h : Called C s aarq s₁) :
    s₁.trace = s.trace ++ [.aarq aarq] := by
  obtain ⟨-, rfl⟩ | ⟨b, title, -, -, rfl⟩ := h
  · rfl
  · unfold Server.takeTitle
    split <;> rfl

theorem Called.config {s s₁ : Server σ π N} {aarq : Aarq} (h : Called C s aarq s₁) :
    s₁.config = s.config := by
  obtain ⟨-, rfl⟩ | ⟨b, title, -, -, rfl⟩ := h
  · rfl
  · exact Server.takeTitle_config ..

/-- An InitiateRequest that is taken came in a frame, unless the user information is one. -/
theorem unprotectInitiate_frame {s : Server σ π N} {info : Bytes} {opened : Opened}
    {init : InitiateRequest} (hsec : s.config.security.isNone = false)
    (hbare : ∀ init, (readInitiate (Reader.new info)).1 ≠ .ok (some init))
    (h : (unprotectInitiate C info s).1 = .ok opened)
    (hinit : (readInitiate (Reader.new opened.plain)).1 = .ok (some init)) :
    ∃ f, opened.frame = some f ∧ f.policy = s.config.security.global ∧
      (s.config.security.authenticated = true → f.control.authenticated = true) ∧
      (s.config.security.encrypted = true → f.control.encrypted = true) := by
  obtain ⟨rfl, -⟩ | ⟨f, hf, hpol, hcheck, -⟩ := unprotect_frame C h
  · exact absurd hinit (hbare init)
  · obtain ⟨-, -, -, ha, he⟩ := SecurityPolicy.checkReceived_ok hcheck hsec
    exact ⟨f, hf, hpol, ha, he⟩

/-- What the user information brought, once it is kept. -/
theorem keepNegotiated_rests {s s₁ t : Server σ π N} {apdu : Bytes} {aarq : Aarq}
    {proposed : Conformance} {clientMax : UInt16} (hsec : s.config.security.isNone = false)
    (hr : Reached C s apdu aarq s₁)
    (hbare : ∀ info, aarq.userInformation = some info →
      ∀ init, (readInitiate (Reader.new info)).1 ≠ .ok (some init))
    (hp : Proposal C s₁ aarq (.ok (.inr (proposed, clientMax)), t)) :
    (t.keepNegotiated proposed clientMax).Rests C := by
  have hcl := hr.called.cleared
  cases hp with
  | terminated _ _ _ hne => exact absurd rfl (hne _)
  | absent _ hstand =>
    have hconfig : t.config = s₁.config := congrArg Standing.config hstand
    have hprot : t.protector = s₁.protector := congrArg Standing.protector hstand
    refine .inl (hcl.of_eq hconfig hprot (Conformance.negotiate_empty _) ?_)
    change (if s₁.config.maxPduSize = 0 then t.config.maxPduSize else _) = s₁.config.maxPduSize
    rw [hconfig, ite_self]
  | taken info opened init p _ hinfo hopen hinit hkey hstand _ _ htrace =>
    have hconfig : t.config = s₁.config := congrArg Standing.config hstand
    have hprot : t.protector = p := congrArg Standing.protector hstand
    obtain ⟨f, hf, hpol, ha, he⟩ := unprotectInitiate_frame C (by rw [hr.called.config]; exact hsec)
      (hbare info hinfo) hopen hinit
    obtain ⟨fs, hfs, hopened⟩ := htrace
    refine .inr ⟨f, init, ⟨⟨s.trace, aarq, fs ++ [.initiate (some f) init], ?_, ?_, by simp⟩,
      by rw [← hconfig] at hpol; exact hpol, by rw [← hconfig] at ha; exact ha,
      by rw [← hconfig] at he; exact he, rfl, rfl, ?_⟩⟩
    · change t.trace = _
      rw [hfs, hr.called.trace, hf]
      simp
    · intro a hmem
      rcases List.mem_append.mp hmem with hmem | hmem
      · obtain ⟨f', h⟩ := hopened _ hmem
        cases h
      · simp at hmem
    · obtain ⟨p₀, hp₀⟩ := hcl.key
      cases hk : init.dedicatedKey with
      | none =>
        rw [hk] at hkey
        have hprot : t.protector = s₁.protector := hprot.trans hkey
        exact ⟨by rw [← hcl.dedicated, ← hprot]; rfl, p₀, by rw [← hp₀, ← hprot]; rfl⟩
      | some b =>
        rw [hk] at hkey
        obtain ⟨key, hb, hset, hpolicy⟩ := hkey
        refine ⟨?_, key, p₀, hb, ?_⟩
        · change t.protector.policy.dedicated = true
          rw [hprot, hpolicy]
          rfl
        · rw [← hp₀, hset, ← hprot]
          rfl

/-- Starting the authentication changes nothing that an association rests on. -/
theorem startAuthentication_rested (aarq : Aarq) (mechanism : AuthMechanism) (rng : Entropy) :
    Prog.Keeps (Server.StaysRested C) (startAuthentication aarq mechanism rng : Srv σ π N _) := by
  refine ⟨fun s => ?_⟩
  have hs := startAuthentication_started s aarq mechanism rng
  generalize startAuthentication aarq mechanism rng s = out at hs ⊢
  cases hs <;> exact .of_eq rfl rfl rfl rfl (List.append_nil _).symm (by simp)

/-- Where the AARQ is looked at, it carries no InitiateRequest that is bare. -/
theorem Reached.notBare {s s₁ : Server σ π N} {apdu : Bytes} {aarq : Aarq}
    (h : Reached C s apdu aarq s₁) (hx : s.NoBareInitiate apdu) :
    ∀ info, aarq.userInformation = some info →
      ∀ init, (readInitiate (Reader.new info)).1 ≠ .ok (some init) := by
  refine fun info => hx aarq info h.decoded h.accepts h.knows fun b hb => ?_
  obtain ⟨hn, -⟩ | ⟨b', title, hb', ht, -⟩ := h.called
  · rw [hn] at hb; cases hb
  · obtain rfl := Option.some.inj (hb'.symm.trans hb)
    rw [← SystemTitle.fromSlice_ok ht, title.length_eq]

theorem handleAarq_grounded {s : Server σ π N} (apdu : Bytes) (room : Nat) (rng : Entropy)
    (hsec : s.config.security.isNone = false) (hs : s.Grounded C) (hx : s.NoBareInitiate apdu) :
    (handleAarq C S apdu room rng s).2.Grounded C := by
  have answering : Answering (Server.StaysRested C : Server σ π N → _ → Prop) :=
    Server.StaysRested.answering
  have hb := handleAarq_begins C S s apdu room rng
  generalize handleAarq C S apdu room rng s = out at hb ⊢
  cases hb with
  | malformed => exact hs
  | refused => exact (refuse_over ..).grounded
  | title aarq => exact fun _ => .inl (Server.begun_cleared aarq s)
  | reached aarq s₁ hr =>
    have hbare := hr.notBare C hx
    have ho := openAssociation_opens C S s₁ aarq room rng
    generalize openAssociation C S aarq aarq.context aarq.mechanism room rng s₁ = out at ho ⊢
    cases ho with
    | terminated _ hover => exact hover.grounded
    | fault e t hp =>
      cases hp with
      | terminated _ _ hover => exact hover.grounded
      | fault _ _ _ _ _ _ _ hstand =>
        have hcl := hr.called.cleared
        exact fun _ => .inl (hcl.of_eq (congrArg Standing.config hstand)
          (congrArg Standing.protector hstand)
          ((congrArg Standing.negotiated hstand).trans hcl.negotiated)
          ((congrArg Standing.clientMaxPduSize hstand).trans hcl.clientMax))
    | proceeds proposed clientMax t ht =>
      have hp := takeInitiate_proposal C S aarq room s₁
      rw [ht] at hp
      have hrest := keepNegotiated_rests C hsec hr hbare hp
      exact fun _ => (answering.bind (startAuthentication_rested C aarq aarq.mechanism rng)
        fun _ => answering.acceptAssociation C S _ _ _ room).run _ hrest

/-- An AARQ without user information leaves nothing of an association, however it ends. -/
theorem handleAarq_cleared {s : Server σ π N} {apdu : Bytes} {aarq : Aarq} (room : Nat)
    (rng : Entropy) (hx : s.NoBareInitiate apdu) (hd : Read.fromBytes Aarq.decode apdu = .ok aarq)
    (hn : aarq.BringsNothing) : (handleAarq C S apdu room rng s).2.Cleared C := by
  have answering : Answering (fun s t : Server σ π N => s.Cleared C → t.Cleared C) :=
    Server.Cleared.answering
  have hb := handleAarq_begins C S s apdu room rng
  generalize handleAarq C S apdu room rng s = out at hb ⊢
  cases hb with
  | malformed e he => rw [hd] at he; cases he
  | refused aarq s₁ diagnostic _ hs₁ =>
    refine (answering.refuse S _ diagnostic room).run s₁ ?_
    rcases hs₁ with rfl | h
    · exact Server.begun_cleared aarq s
    · exact h.cleared
  | title aarq => exact Server.begun_cleared aarq s
  | reached aarq' s₁ hr =>
    obtain rfl := Except.ok.inj (hd.symm.trans hr.decoded)
    rcases hn with hn | ⟨info, init, hinfo, hinit⟩
    · have hcl : (s₁.keepNegotiated .empty s₁.config.maxPduSize).Cleared C := by
        refine hr.called.cleared.of_eq rfl rfl (Conformance.negotiate_empty _) ?_
        exact ite_self _
      have hrun : takeInitiate C S aarq room s₁ = (.ok (.inr (.empty, s₁.config.maxPduSize)), s₁) := by
        simp only [takeInitiate, Prog.gets_bind_run]
        rw [hn]
        rfl
      unfold openAssociation
      rw [Prog.bind_run_ok hrun]
      dsimp only
      rw [Prog.modify_bind_run]
      split
      · exact (answering.refuse S _ _ room).run _ hcl
      · refine (answering.bind ⟨fun t ht => ?_⟩
          fun _ => answering.acceptAssociation C S _ _ _ room).run _ hcl
        have hs := startAuthentication_started t aarq aarq.mechanism rng
        generalize startAuthentication aarq aarq.mechanism rng t = out at hs ⊢
        cases hs <;> exact ht.of_eq rfl rfl ht.negotiated ht.clientMax
    · exact absurd hinit (hr.notBare C hx info hinfo init)

/-! ## Every step -/

theorem handleRelease_over (apdu : Bytes) (room : Nat) (s : Server σ π N) :
    (handleRelease C S apdu room s).2 = s ∨ (handleRelease C S apdu room s).2.Over := by
  unfold handleRelease
  cases Read.fromBytes Rlrq.decode apdu with
  | error e => exact .inl rfl
  | ok rlrq =>
    right
    simp only [Prog.ofExcept_ok, Prog.pure_bind_run, setState, Prog.modify_bind_run]
    rw [Prog.bind_run_ok (audit_run ..), reply_run]
    exact .inl rfl

theorem handle_grounded {s : Server σ π N} (apdu : Bytes) (room : Nat) (rng : Entropy)
    (hsec : s.config.security.isNone = false) (ha : s.Agreed) (hs : s.Grounded C)
    (hx : apdu.length ≤ s.config.maxPduSize.toNat → apdu.head? = some 0x60 →
      s.NoBareInitiate apdu) :
    (handle C S apdu room rng s).2.Grounded C := by
  have hd := handle_dispatched C S s apdu room rng
  generalize handle C S apdu room rng s = out at hd ⊢
  cases hd with
  | refused a b =>
    have hw := ((Works.rules C S).exception a b room : Works [] (fun _ => True) _).run s trivial ha
    exact (Server.StaysRested.of_worked hw).grounded (congrArg Association.state hw.association) hs
  | aarq hlen hhead => exact handleAarq_grounded C S apdu room rng hsec hs (hx hlen hhead)
  | release =>
    rcases handleRelease_over C S apdu room s with h | h
    · rw [h]; exact hs
    · exact h.grounded
  | request hlive => exact fun _ =>
      (Server.StaysRested.serving C).handleProtected S apdu room ha (hs hlive)

end Srv

/-- An AARQ carries no bare InitiateRequest that the server would look at. -/
def Step.NoBareInitiate (s : Server σ π N) : Step σ → Prop
  | .handle apdu _ _ => apdu.length ≤ s.config.maxPduSize.toNat → apdu.head? = some 0x60 →
      s.NoBareInitiate apdu
  | _ => True

namespace Server

variable (C : CryptoProvider π) (S : ObjectStore σ)

theorem step_grounded {s : Server σ π N} (x : Step σ) (hsec : s.config.security.isNone = false)
    (ha : s.Agreed) (hs : s.Grounded C) (hx : x.NoBareInitiate s) : (s.step C S x).2.Grounded C := by
  cases x with
  | handle apdu room rng => exact Srv.handle_grounded C S apdu room rng hsec ha hs hx
  | reset => exact Over.grounded (.inr rfl)
  | resume =>
    exact StaysRested.grounded (s := s)
      (.of_eq rfl rfl rfl rfl (List.append_nil _).symm (by simp)) rfl hs
  | storeMut =>
    exact StaysRested.grounded (s := s)
      (.of_eq rfl rfl rfl rfl (List.append_nil _).symm (by simp)) rfl hs

end Server

/-- In every run of a server with security whose AARQs carry no InitiateRequest that is bare: what
an association has negotiated, and its dedicated key, come from an InitiateRequest that was opened
under the global key with the protection that the policy demands, or it has neither. An AARQ that
carries no protected one leaves neither. -/
theorem association_rests_on_protected_initiate (C : CryptoProvider π) (S : ObjectStore σ)
    (config : ServerConfig) (store : σ) (provider : π) (steps : List (Step σ))
    (hsec : config.security.isNone = false)
    (h : ∀ pre x post, steps = pre ++ x :: post →
      x.NoBareInitiate ((Server.new N config store provider).run C S pre)) :
    let s := (Server.new N config store provider).run C S steps
    (s.state = .associated ∨ s.state = .awaitingHlsReply → s.Rests C) ∧
      ∀ apdu room rng aarq, s.NoBareInitiate apdu → apdu.length ≤ config.maxPduSize.toNat →
        apdu.head? = some 0x60 → Read.fromBytes Aarq.decode apdu = .ok aarq → aarq.BringsNothing →
        (Srv.handle C S apdu room rng s).2.Cleared C := by
  have hinv := Server.run_induction (C := C) (S := S)
    (I := fun s : Server σ π N => s.config = config ∧ s.Agreed ∧ s.Grounded C)
    (K := fun s x => x.NoBareInitiate s)
    (fun s x hs hx => ⟨(Server.step_config C S x hs.2.1).trans hs.1, Server.step_agreed C S x hs.2.1,
      Server.step_grounded C S x (hs.1 ▸ hsec) hs.2.1 hs.2.2 hx⟩)
    (s := .new N config store provider) ⟨rfl, trivial, fun h => by simp [Server.new] at h⟩ h
  refine ⟨hinv.2.2, fun apdu room rng aarq hx hlen hhead hd hn => ?_⟩
  rw [Srv.handle_aarq C S (by rw [hinv.1]; exact hlen) hhead]
  exact Srv.handleAarq_cleared C S room rng hx hd hn

/-- The AARQ of 1, 2, .. 8 in a ciphered context with an InitiateRequest that is bare. -/
def bareAarq : Bytes :=
  [0x60, 0x29, 0xA1, 0x09, 0x06, 0x07, 0x60, 0x85, 0x74, 0x05, 0x08, 0x01, 0x03,
    0xA6, 0x0A, 0x04, 0x08, 1, 2, 3, 4, 5, 6, 7, 8,
    0xBE, 0x10, 0x04, 0x0E,
    0x01, 0x00, 0x00, 0x00, 0x06, 0x5F, 0x1F, 0x04, 0x00, 0xFF, 0xFF, 0xFF, 0x04, 0x00]

theorem association_rests_on_protected_initiate_recorded :
    let s := (Server.new 64 authenticatingConfig () SampleKeys.authenticating).run sampleProvider
      (.constant [0x00] ⟨0x01⟩) [.handle recordedAarq 256 .zeros]
    s.state = .associated ∧ s.Rests sampleProvider := by
  have h := association_rests_on_protected_initiate (N := 64) sampleProvider
    (.constant [0x00] ⟨0x01⟩) authenticatingConfig () .authenticating [.handle recordedAarq 256 .zeros]
    rfl ?_
  · have hs : ((Server.new 64 authenticatingConfig () SampleKeys.authenticating).run sampleProvider
        (.constant [0x00] ⟨0x01⟩) [.handle recordedAarq 256 .zeros]).state = .associated := by
      decide +kernel
    exact ⟨hs, h.1 (.inl hs)⟩
  · intro pre x post hx
    obtain ⟨rfl, rfl⟩ : pre = [] ∧ x = .handle recordedAarq 256 .zeros := by
      rcases pre with _ | ⟨y, pre⟩
      · exact ⟨rfl, (List.cons.inj hx).1.symm⟩
      · have := congrArg List.length hx
        simp at this
    intro _ _ aarq info hd _ _ _ hi init
    have hinfo : (Read.fromBytes Aarq.decode recordedAarq).toOption.bind Aarq.userInformation =
        some (recordedAarq.drop 29) := by decide +kernel
    rw [hd] at hinfo
    obtain rfl := Option.some.inj (hi.symm.trans hinfo)
    have hnone : (readInitiate (Reader.new (recordedAarq.drop 29))).1.toOption.join = none := by
      decide +kernel
    intro h
    rw [h] at hnone
    cases hnone

/-- An AARQ with a bare InitiateRequest opens an association of an authenticated server, with all
that it proposes. -/
theorem bare_initiate_taken :
    ¬ ∀ steps,
      let s := (Server.new 64 authenticatingConfig () SampleKeys.authenticating).run sampleProvider
        (.constant [0x00] ⟨0x01⟩) steps
      s.state = .associated ∨ s.state = .awaitingHlsReply → s.Rests sampleProvider := by
  intro h
  have hs := h [.handle bareAarq 256 .zeros] (.inl (by decide +kernel))
  have hneg : ((Server.new 64 authenticatingConfig () SampleKeys.authenticating).run sampleProvider
      (.constant [0x00] ⟨0x01⟩) [.handle bareAarq 256 .zeros]).negotiated ≠ .empty := by
    decide +kernel
  obtain hc | ⟨frame, init, hr⟩ := hs
  · exact hneg hc.negotiated
  · obtain ⟨pre, aarq, post, htr, -, hmem⟩ := hr.initiated
    have hnone : ∀ e ∈ ((Server.new 64 authenticatingConfig () SampleKeys.authenticating).run
        sampleProvider (.constant [0x00] ⟨0x01⟩) [.handle bareAarq 256 .zeros]).trace,
        e.framed = none := by
      decide +kernel
    have := hnone (.initiate (some frame) init) (by rw [htr]; simp [hmem])
    cases this

end Dlms
