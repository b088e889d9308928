import DlmsCosem.Client.Nonces
import DlmsCosem.Server.Nonces
import DlmsCosem.Server.Replay

/-!
# No nonce is used twice

Each end protects what it sends under its own title, and with a number that it has not used before
(`numbers_used_once`). The calls that open a frame are under the title of the peer. A server takes any
title for that, its own too: then a call that opens and one that protects may meet
(`own_title_of_peer`).
-/

namespace Dlms

variable {σ π : Type} {N : Nat}

/-! ## What the protector asks the provider for -/

/-- Two providers seal and compute codes alike with one nonce. -/
structure CryptoProvider.Agree (C C' : CryptoProvider π) (iv : Bytes) : Prop where
  aeadSeal : ∀ p k s aad buf, C.aeadSeal p k s iv aad buf = C'.aeadSeal p k s iv aad buf
  gmac : ∀ p k s aad, C.gmac p k s iv aad = C'.gmac p k s iv aad

/-- What is protected for a title and a number, under either provider. -/
structure Protector.ProtectsAlike (C C' : CryptoProvider π) (title : SystemTitle) (counter : UInt32) :
    Prop where
  protectAs : ∀ (p : Protector π) policy key plain room,
    p.protectAs C policy title counter key plain room = p.protectAs C' policy title counter key plain room
  hlsGmacResponse : ∀ (p : Protector π) key challenge,
    p.hlsGmacResponse C title counter key challenge = p.hlsGmacResponse C' title counter key challenge
  protectApdu : ∀ (p : Protector π) (ctx : Outgoing) plain room, ctx.systemTitle = title →
    ctx.invocationCounter = counter → protectApdu C p ctx plain room = protectApdu C' p ctx plain room

/-- Protecting calls the provider with the nonce of the title and the number alone. -/
theorem CryptoProvider.Agree.protectsAlike {C C' : CryptoProvider π} {title : SystemTitle}
    {counter : UInt32} (h : C.Agree C' (nonce title counter)) :
    Protector.ProtectsAlike C C' title counter := by
  have hprotect (p : Protector π) policy key plain room :
      p.protectAs C policy title counter key plain room =
        p.protectAs C' policy title counter key plain room := by
    unfold Protector.protectAs Protector.gmacWith
    simp only [h.aeadSeal, h.gmac]
  refine ⟨hprotect, fun p key challenge => ?_, fun p ctx plain room htitle hcounter => ?_⟩
  · unfold Protector.hlsGmacResponse Protector.gmacWith
    simp only [h.gmac]
  · subst htitle hcounter
    unfold Dlms.protectApdu
    simp only [hprotect]

/-! ## Both ends -/

/-- What one end used up to a state: its own title, and numbers that rise. -/
structure UsedOnce (own : Option SystemTitle) (uses : List (SystemTitle × Nat)) : Prop where
  rising : (uses.map Prod.snd).Pairwise (· < ·)
  own : ∀ u ∈ uses, own = some u.1

namespace Server

variable (C : CryptoProvider π) (S : ObjectStore σ)

/-- At the end of the counter a step uses no number, and is refused where it would have used one. -/
def StopsAtEnd (s : Server σ π N) : Prop := s.invocationCounter.last = 0xFFFFFFFF → ∀ x : Step σ,
  (s.step C S x).2.uses = s.uses ∧
    ∀ c, ((Srv.rewound s c).step C S x).2.uses ≠ s.uses →
      (s.step C S x).1 = some (.error ⟨.unsupported, 0⟩)

theorem stopsAtEnd {s : Server σ π N} (ha : s.Agreed) : s.StopsAtEnd C S := by
  intro hs x
  have hlast : s.invocationCounter.last.toNat = 0xFFFFFFFF := congrArg UInt32.toNat hs
  cases x with
  | handle apdu room rng =>
    obtain ⟨huses, hbad⟩ := (Srv.handle_metered C S apdu room rng ha).exhausted hlast
    refine ⟨huses, fun c hc => ?_⟩
    obtain ⟨e, rfl, he⟩ := hbad c hc
    exact congrArg some he
  | reset =>
    obtain ⟨huses, hbad⟩ := ((Srv.Numbered.reset C S).run s).exhausted hlast
    refine ⟨huses, fun c hc => ?_⟩
    obtain ⟨e, -, he⟩ := hbad c hc
    cases he
  | resume => exact ⟨rfl, fun _ hc => absurd rfl hc⟩
  | storeMut => exact ⟨rfl, fun _ hc => absurd rfl hc⟩

end Server

namespace ClientSession

variable (C : CryptoProvider π)

/-- At the end of the counter a method uses no number, and is refused where it would have used one. -/
def StopsAtEnd (s : ClientSession π N) : Prop := s.invocationCounter.last = 0xFFFFFFFF →
  ∀ op : ClientOp, (s.step C op).uses = s.uses ∧
    ∀ c, ((Cli.rewound s c).step C op).uses ≠ s.uses → (op.method C s).1 = .error ⟨.unsupported, 0⟩

theorem stopsAtEnd (s : ClientSession π N) : s.StopsAtEnd C := by
  intro hs op
  have hlast : s.invocationCounter.last.toNat = 0xFFFFFFFF := congrArg UInt32.toNat hs
  by_cases hset : ∃ value, op = .setInvocationCounter value
  · obtain ⟨value, rfl⟩ := hset
    exact ⟨rfl, fun _ hc => absurd rfl hc⟩
  · have hop := (Cli.Numbered.method (N := N) (P := fun _ => True) C op fun value h =>
      hset ⟨value, h⟩).run s trivial
    obtain ⟨huses, hbad⟩ := hop.exhausted hlast
    rw [step_eq]
    refine ⟨huses, fun c hc => ?_⟩
    rw [step_eq] at hc
    obtain ⟨e, rfl, he⟩ := hbad c hc
    exact he

end ClientSession

/-- In every run each end protects under its own title, with numbers that rise; at the end of its
counter it protects nothing more. For a title and a number the provider is called with their nonce
alone. -/
theorem numbers_used_once (C : CryptoProvider π) (S : ObjectStore σ) :
    (∀ (config : ServerConfig) (store : σ) (provider : π) (steps : List (Step σ)),
      let s := (Server.new N config store provider).run C S steps
      UsedOnce config.systemTitle s.uses ∧ s.StopsAtEnd C S) ∧
    (∀ (config : ClientConfig) (provider : π) (ops : List ClientOp),
      (∀ value, ClientOp.setInvocationCounter value ∉ ops) →
      let s := Run.after (fun s op => s.step C op) (ClientSession.new N config provider) ops
      UsedOnce config.systemTitle s.uses ∧ s.StopsAtEnd C) ∧
    ∀ (C' : CryptoProvider π) (title : SystemTitle) (counter : UInt32),
      C.Agree C' (nonce title counter) → Protector.ProtectsAlike C C' title counter := by
  refine ⟨fun config store provider steps => ⟨?_, ?_⟩, fun config provider ops hset => ⟨?_, ?_⟩,
    fun C' title counter h => h.protectsAlike⟩
  · have hnew : (Server.new N config store provider).Agreed := trivial
    obtain ⟨hrising, hown⟩ := (Server.run_rises C S steps hnew).distinct rfl
    exact ⟨hrising, hown⟩
  · exact Server.stopsAtEnd C S (Server.run_agreed C S steps trivial)
  · obtain ⟨hrising, hown⟩ :=
      (ClientSession.run_rises C (ClientSession.new N config provider) hset).distinct rfl
    exact ⟨hrising, hown⟩
  · exact ClientSession.stopsAtEnd C _

/-- A client that messages are authenticated for, with the last number but one used. -/
def lastNumberConfig : ClientConfig where
  systemTitle := some sampleTitle
  security := { authenticated := true }
  invocationCounter := 0xFFFFFFFE

/-- The server's side of it, with no number left. -/
def noNumberConfig : ServerConfig where
  systemTitle := some sampleTitle
  security := { authenticated := true }
  invocationCounter := 0xFFFFFFFF

theorem numbers_used_once_last :
    let steps : List (Step Unit) := [.handle recordedAarq 256 .zeros]
    let server := (Server.new 64 noNumberConfig () SampleKeys.authenticating).run sampleProvider
      (.constant [0x00] ⟨0x01⟩) steps
    let client := Run.after (fun s op => s.step sampleProvider op)
      (ClientSession.new 64 lastNumberConfig SampleKeys.authenticating) [.associateRequest 256 .zeros]
    server.uses = [] ∧ (server.step sampleProvider (.constant [0x00] ⟨0x01⟩)
      (.handle strangerAarq 256 .zeros)).1 = some (.error ⟨.unsupported, 0⟩) ∧
    client.uses = [(sampleTitle, 0xFFFFFFFF)] ∧ ((ClientOp.associateRequest 256 .zeros).method
      sampleProvider client).1 = .error ⟨.unsupported, 0⟩ ∧
    Protector.ProtectsAlike sampleProvider sampleProvider sampleTitle 5 := by
  obtain ⟨hserver, hclient, halike⟩ := numbers_used_once (N := 64) sampleProvider
    (.constant [0x00] ⟨0x01⟩ : ObjectStore Unit)
  obtain ⟨-, hend⟩ := hserver noNumberConfig () .authenticating [.handle recordedAarq 256 .zeros]
  obtain ⟨-, hend'⟩ := hclient lastNumberConfig .authenticating [.associateRequest 256 .zeros]
    (by simp)
  refine ⟨by decide +kernel, ?_, by decide +kernel, ?_,
    halike sampleProvider sampleTitle 5 ⟨fun _ _ _ _ _ => rfl, fun _ _ _ _ => rfl⟩⟩
  · exact (hend (by decide +kernel) _).2 ⟨0⟩ (by decide +kernel)
  · exact (hend' (by decide +kernel) _).2 ⟨0⟩ (by decide +kernel)

/-! ## A peer with the title of this end -/

/-- The number of a call under `own` that an event shows. A frame that is not both authenticated and
encrypted is opened with a call that seals, or that computes a code. -/
def Event.numberUnder (own : SystemTitle) : Event → Option UInt32
  | protecting title value => if title = own then some value else none
  | opened f => if f.title = own ∧ f.control.isPlain = false ∧
      (f.control.authenticated && f.control.encrypted) = false then some f.counter else none
  | _ => none

/-- The client of the AARQ calls itself what the server is called. -/
theorem own_title_of_peer :
    ¬ ∀ (config : ServerConfig) (own : SystemTitle) (steps : List (Step Unit)),
      config.systemTitle = some own →
      (((Server.new 64 config () SampleKeys.authenticating).run sampleProvider
        (.constant [0x00] ⟨0x01⟩) steps).trace.filterMap (Event.numberUnder own)).Pairwise (· < ·) := by
  intro h
  have := h { authenticatingConfig with systemTitle := some ⟨[1, 2, 3, 4, 5, 6, 7, 8], rfl⟩ }
    ⟨[1, 2, 3, 4, 5, 6, 7, 8], rfl⟩ [.handle recordedAarq 256 .zeros] rfl
  exact absurd this (by decide +kernel)

end Dlms
