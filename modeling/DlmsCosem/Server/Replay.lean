import DlmsCosem.Security.Sample
import DlmsCosem.Server.CompleteMediation

/-!
# No frame is opened twice

A server opens each pair of a title and a counter once (`no_frame_opened_twice`), as long as its
window is not started anew for a title from which it has opened a frame. An AARQ of another title
does start it anew: `Server.takeTitle` keeps the window of one title only. So anyone who sends an
AARQ of another title and then one of the first has every recorded frame of the first accepted again
(`frame_opened_twice`).
-/

namespace Dlms

variable {σ π : Type} {N : Nat}

/-- Who sent the frame that was opened, and its number. -/
def Event.opening : Event → Option (SystemTitle × UInt32)
  | .opened f => some (f.title, f.counter)
  | _ => none

/-- The frames that a server has opened. -/
def Server.openings (s : Server σ π N) : List (SystemTitle × UInt32) :=
  s.trace.filterMap Event.opening

theorem Event.Quiet.opening {e : Event} (h : e.Quiet) : e.opening = none := by
  cases e <;> first | rfl | exact h.elim

/-- A service opens no frame. -/
theorem Mediated.opening {pre ev : List Event} (h : Mediated pre ev) :
    ev.filterMap Event.opening = [] := by
  rw [List.filterMap_eq_nil_iff]
  intro e he
  obtain ⟨p, q, rfl⟩ := List.append_of_mem he
  have ha := h.allowed
  cases e <;> first | rfl | exact ha.elim

/-! ## The invariant -/

/-- The window is that of the client, no frame was opened twice, and the window refuses every frame
of its owner that was opened. -/
structure Server.Fresh (s : Server σ π N) : Prop where
  owner : ∀ t, s.clientSystemTitle = some t → s.replayOwner = some t
  once : s.openings.Nodup
  refuses : ∀ t c, (t, c) ∈ s.openings → s.replayOwner = some t → s.peerReplay.Refuses c

/-- The invariant is kept from one server to the other. -/
def Server.StaysFresh (s t : Server σ π N) : Prop := s.Fresh → t.Fresh

namespace Server

/-- Nothing else matters to the invariant. -/
theorem StaysFresh.of_eq {s t : Server σ π N}
    (hc : t.clientSystemTitle = s.clientSystemTitle ∨ t.clientSystemTitle = none)
    (ho : t.replayOwner = s.replayOwner) (hw : t.peerReplay = s.peerReplay)
    (he : t.openings = s.openings) : s.StaysFresh t := by
  intro hs
  refine ⟨fun title ht => ?_, he ▸ hs.once, fun title c h h' => ?_⟩
  · rcases hc with hc | hc
    · rw [ho]; exact hs.owner title (hc ▸ ht)
    · rw [hc] at ht; cases ht
  · rw [hw]
    exact hs.refuses title c (he ▸ h) (ho ▸ h')

theorem openings_log {s : Server σ π N} {e : Event} (h : e.opening = none) :
    (s.log e).openings = s.openings := by
  simp [openings, log, h]

theorem StaysFresh.log {e : Event} (h : e.opening = none) (s : Server σ π N) :
    s.StaysFresh (s.log e) :=
  .of_eq (.inl rfl) rfl rfl (openings_log h)

/-- A frame is opened only once. -/
theorem Fresh.unprotect (C : CryptoProvider π) (s : Server σ π N) (policy : SecurityPolicy)
    (plain : List ApduTag) (size : Nat) (apdu : Bytes) :
    s.StaysFresh (Srv.unprotect C policy plain size apdu s).2 := by
  have h := unprotectApdu_unprotected C s.protector (s.incoming C policy plain) apdu
    ⟨s.peerReplay, zeros size⟩
  unfold Srv.unprotect
  generalize unprotectApdu C s.protector (s.incoming C policy plain) apdu
    ⟨s.peerReplay, zeros size⟩ = out at h ⊢
  cases h with
  | refused e t ht => exact .of_eq (.inl rfl) rfl ht rfl
  | plain tag t _ _ ht => exact .of_eq (.inl rfl) rfl ht rfl
  | taken f r t hpeer _ _ hcheck ht hopened =>
    intro hs
    have howner : s.replayOwner = some f.title := hs.owner _ hpeer
    have hnew : (f.title, f.counter) ∉ s.openings := fun hmem =>
      ReplayWindow.check_ne_ok_iff.mpr (hs.refuses _ _ hmem howner) hcheck
    have hkept (title : SystemTitle) (c : UInt32) (hmem : (title, c) ∈ s.openings)
        (hown : s.replayOwner = some title) : t.replay.Refuses c := by
      rw [ht]
      exact (hs.refuses title c hmem hown).record f.counter
    cases r with
    | error e => exact ⟨hs.owner, hs.once, hkept⟩
    | ok opened =>
      have htrace : ({ s with peerReplay := t.replay }.log (.opened f)).openings =
          s.openings ++ [(f.title, f.counter)] := by
        simp [openings, log, Event.opening]
      dsimp only
      rw [hopened opened rfl]
      refine ⟨hs.owner, ?_, fun title c hmem hown => ?_⟩
      · rw [htrace]
        simpa using List.Nodup.concat hnew hs.once
      · rw [htrace] at hmem
        rcases List.mem_append.mp hmem with hmem | hmem
        · exact hkept title c hmem hown
        · obtain ⟨rfl, rfl⟩ := Prod.mk.inj (List.mem_singleton.mp hmem)
          change t.replay.Refuses f.counter
          rw [ht]
          exact s.peerReplay.record_refuses f.counter

theorem StaysFresh.answering : Answering (StaysFresh : Server σ π N → Server σ π N → Prop) where
  trans _ _ _ h h' hs := h' (h hs)
  same s t h ht := .of_eq (.inl (congrArg Standing.clientSystemTitle h))
    (congrArg Standing.replayOwner h) (congrArg Standing.peerReplay h) (by rw [openings, ht]; rfl)
  event s e he := .log he.opening s

theorem StaysFresh.opening (C : CryptoProvider π) :
    Opening C (StaysFresh : Server σ π N → Server σ π N → Prop) where
  toAnswering := answering
  changed s t h ht := .of_eq (.inl (congrArg Identity.clientSystemTitle h))
    (congrArg Identity.replayOwner h) (congrArg Identity.peerReplay h) (by rw [openings, ht]; rfl)
  unprotected := Fresh.unprotect C

theorem StaysFresh.serving (C : CryptoProvider π) :
    Serving C (StaysFresh : Server σ π N → Server σ π N → Prop) where
  toAnswering := answering
  worked s t h := by
    obtain ⟨ev, hev, hm⟩ := h.trace
    refine .of_eq (.inl (congrArg Association.clientSystemTitle h.association))
      (congrArg Association.replayOwner h.association)
      (congrArg Association.peerReplay h.association) ?_
    rw [Server.openings, hev, List.filterMap_append, hm.opening, List.append_nil]
    rfl
  unprotected := Fresh.unprotect C
  request s _ _ := .log rfl s

/-- A title may be taken when the window is its own or no frame of it was opened. -/
theorem Fresh.takeTitle {s : Server σ π N} {title : SystemTitle}
    (h : s.replayOwner ≠ some title → ∀ c, (title, c) ∉ s.openings) :
    s.StaysFresh (s.takeTitle title) := by
  intro hs
  unfold Server.takeTitle
  by_cases ho : s.replayOwner = some title
  · rw [if_pos ho]
    refine ⟨fun t ht => ?_, hs.once, hs.refuses⟩
    rw [← ht]
    exact ho
  · rw [if_neg ho]
    refine ⟨fun t ht => ht, hs.once, fun t c hmem hown => ?_⟩
    obtain rfl : title = t := Option.some.inj hown
    exact absurd hmem (h ho c)

/-- Of the AARQ, that it does not start the window anew for a title from which a frame was opened:
it is refused before its title is looked at, its title is that of the window, or nothing of that
title was opened. -/
def KeepsWindow (s : Server σ π N) (apdu : Bytes) : Prop :=
  ∀ aarq b title, Read.fromBytes Aarq.decode apdu = .ok aarq → s.config.Accepts aarq →
    aarq.callingApTitle = some b → SystemTitle.fromSlice b = .ok title →
    s.replayOwner ≠ some title → ∀ c, (title, c) ∉ s.openings

end Server

namespace Srv

variable (C : CryptoProvider π) (S : ObjectStore σ)

theorem handleAarq_fresh {s : Server σ π N} (apdu : Bytes) (room : Nat) (rng : Entropy)
    (h : s.KeepsWindow apdu) : s.StaysFresh (handleAarq C S apdu room rng s).2 := by
  unfold handleAarq
  cases hd : Read.fromBytes Aarq.decode apdu with
  | error e => exact id
  | ok aarq =>
    have hopen : ((s.clearAssociation C).log (.aarq aarq)).openings = s.openings :=
      Server.openings_log rfl
    have hcleared : s.StaysFresh ((s.clearAssociation C).log (.aarq aarq)) :=
      .of_eq (.inr rfl) rfl rfl hopen
    refine fun hs => (Server.StaysFresh.opening C).answerAarq S room rng ?_ (hcleared hs)
    intro b title hacc hb ht
    exact Server.Fresh.takeTitle fun ho c hmem => h aarq b title hd hacc hb ht ho c (hopen ▸ hmem)

theorem handle_fresh {s : Server σ π N} (apdu : Bytes) (room : Nat) (rng : Entropy)
    (ha : s.Agreed) (h : apdu.length ≤ s.config.maxPduSize.toNat → apdu.head? = some 0x60 →
      s.KeepsWindow apdu) :
    s.StaysFresh (handle C S apdu room rng s).2 := by
  have answering : Answering (Server.StaysFresh : Server σ π N → _ → Prop) :=
    Server.StaysFresh.answering
  have hd := handle_dispatched C S s apdu room rng
  generalize handle C S apdu room rng s = out at hd ⊢
  cases hd with
  | refused a b => exact (answering.exception C a b room).run s
  | aarq hlen hhead => exact handleAarq_fresh C S apdu room rng (h hlen hhead)
  | release =>
    exact (answering.handleRelease C S (fun _ _ => .of_eq (.inl rfl) rfl rfl rfl) apdu room).run s
  | request => exact (Server.StaysFresh.serving C).handleProtected S apdu room ha

end Srv

/-- A step does not start the window anew for a title from which a frame was opened. -/
def Step.KeepsWindow (s : Server σ π N) : Step σ → Prop
  | .handle apdu _ _ =>
    apdu.length ≤ s.config.maxPduSize.toNat → apdu.head? = some 0x60 → s.KeepsWindow apdu
  | .resume _ _ => False
  | _ => True

namespace Server

variable (C : CryptoProvider π) (S : ObjectStore σ)

theorem step_fresh {s : Server σ π N} (x : Step σ) (ha : s.Agreed) (h : x.KeepsWindow s) :
    s.StaysFresh (s.step C S x).2 := by
  cases x with
  | handle apdu room rng => exact Srv.handle_fresh C S apdu room rng ha h
  | reset =>
    refine .of_eq (.inr rfl) rfl rfl ?_
    change List.filterMap _ (s.trace ++ [.store (.audit .released)]) = _
    rw [List.filterMap_append]
    simp [openings, Event.opening]
  | resume => exact h.elim
  | storeMut => exact .of_eq (.inl rfl) rfl rfl rfl

end Server

/-- In every run whose steps do not start the window anew for a title from which a frame was opened,
each pair of a title and a counter is opened at most once. -/
theorem no_frame_opened_twice (C : CryptoProvider π) (S : ObjectStore σ) (config : ServerConfig)
    (store : σ) (provider : π) (steps : List (Step σ))
    (h : ∀ pre x post, steps = pre ++ x :: post →
      x.KeepsWindow ((Server.new N config store provider).run C S pre)) :
    ((Server.new N config store provider).run C S steps).openings.Nodup := by
  have hnew : (Server.new N config store provider).Agreed ∧
      (Server.new N config store provider).Fresh :=
    ⟨trivial, nofun, List.nodup_nil, nofun⟩
  refine (Server.run_induction (I := fun s => s.Agreed ∧ s.Fresh) ?_ hnew h).2.once
  exact fun s x hs hx => ⟨Server.step_agreed C S x hs.1, Server.step_fresh C S x hs.1 hx hs.2⟩

/-- A server whose messages are authenticated. -/
def authenticatingConfig : ServerConfig where
  systemTitle := some ⟨[0x53, 0x53, 0x53, 0x53, 0x53, 0x53, 0x53, 0x53], rfl⟩
  security := { authenticated := true }

/-- The AARQ of 1, 2, .. 8 with an authenticated InitiateRequest of number 1. -/
def recordedAarq : Bytes :=
  [0x60, 0x3C, 0xA1, 0x09, 0x06, 0x07, 0x60, 0x85, 0x74, 0x05, 0x08, 0x01, 0x03,
    0xA6, 0x0A, 0x04, 0x08, 1, 2, 3, 4, 5, 6, 7, 8,
    0xBE, 0x23, 0x04, 0x21, 0x21, 0x1F, 0x10, 0x00, 0x00, 0x00, 0x01,
    0x01, 0x00, 0x00, 0x00, 0x06, 0x5F, 0x1F, 0x04, 0x00, 0xFF, 0xFF, 0xFF, 0x04, 0x00,
    108, 87, 60, 239, 68, 190, 6, 51, 87, 165, 154, 227]

/-- An AARQ of 9, 9, .. 9, which needs no key. -/
def strangerAarq : Bytes :=
  [0x60, 0x17, 0xA1, 0x09, 0x06, 0x07, 0x60, 0x85, 0x74, 0x05, 0x08, 0x01, 0x03,
    0xA6, 0x0A, 0x04, 0x08, 9, 9, 9, 9, 9, 9, 9, 9]

theorem no_frame_opened_twice_recorded :
    ((Server.new 64 authenticatingConfig () SampleKeys.authenticating).run sampleProvider
      (.constant [0x00] ⟨0x01⟩)
      [.handle strangerAarq 256 .zeros, .handle recordedAarq 256 .zeros]).openings.Nodup := by
  refine no_frame_opened_twice sampleProvider (.constant [0x00] ⟨0x01⟩) authenticatingConfig ()
    .authenticating _ fun pre x post h => ?_
  have keeps {s : Server Unit SampleKeys 64} {apdu : Bytes} (hs : s.openings = []) :
      (Step.handle apdu 256 .zeros : Step Unit).KeepsWindow s := by
    intro _ _ aarq b title _ _ _ _ _ c hc
    rw [hs] at hc
    cases hc
  rcases pre with _ | ⟨y, _ | ⟨z, pre⟩⟩
  · obtain ⟨rfl, -⟩ := List.cons.inj h
    exact keeps rfl
  · obtain ⟨rfl, htail⟩ := List.cons.inj h
    obtain ⟨rfl, -⟩ := List.cons.inj htail
    exact keeps (by decide +kernel)
  · have := congrArg List.length h
    simp at this

/-- A recorded AARQ is opened again when another title has called in between. -/
theorem frame_opened_twice :
    ¬ ∀ steps, ((Server.new 64 authenticatingConfig () SampleKeys.authenticating).run sampleProvider
      (.constant [0x00] ⟨0x01⟩) steps).openings.Nodup := by
  intro h
  have := h [.handle recordedAarq 256 .zeros, .handle strangerAarq 256 .zeros,
    .handle recordedAarq 256 .zeros]
  exact absurd this (by decide +kernel)

end Dlms
