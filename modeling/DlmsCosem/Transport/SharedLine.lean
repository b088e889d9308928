import DlmsCosem.Transport.Station

/-!
# A shared line

Several stations may hear one line. A connection looks at where a frame goes, never at where it comes
from, and takes any UA that does not answer its SNRM for the answer to a DISC. `Disturbs` are the frames
where this shows; a run without them is one that others have no part in.
-/

namespace Dlms.Hdlc

namespace Connection

variable {c : Connection} {r : Reassembler} {frame : Frame}

/-- The stations at both ends of the link, and which of them this is. -/
structure SameEnds (c c' : Connection) : Prop where
  role : c'.role = c.role
  localAddress : c'.localAddress = c.localAddress
  peer : c'.peer = c.peer

theorem SameEnds.refl (c : Connection) : SameEnds c c := ⟨rfl, rfl, rfl⟩

theorem SameEnds.trans {c₁ c₂ c₃ : Connection} (h₁ : SameEnds c₁ c₂) (h₂ : SameEnds c₂ c₃) :
    SameEnds c₁ c₃ :=
  ⟨h₂.role.trans h₁.role, h₂.localAddress.trans h₁.localAddress, h₂.peer.trans h₁.peer⟩

/-- The link and the reassembler are as an SNRM with these parameters leaves them. -/
structure Reopened (c : Connection) (r : Reassembler) (p : Parameters) : Prop where
  state : c.state = .connected
  ns : c.ns = 0
  nr : c.nr = 0
  negotiated : c.negotiated = c.proposed.negotiate p
  acknowledging : c.acknowledging = some .snrm
  empty : r.len = 0
  expectNs : r.expectNs = none
  incomplete : r.complete = false

theorem reopened_iff {p : Parameters} :
    ({ c.opened p with acknowledging := some .snrm }, r.reset) = (c, r) ↔ Reopened c r p := by
  obtain ⟨role, localAddress, peer, state, ns, nr, proposed, negotiated, acknowledging⟩ := c
  obtain ⟨buf, len, expectNs, complete, hle⟩ := r
  constructor
  · intro h
    simp only [opened, resetSequence, Reassembler.reset, Prod.mk.injEq, Connection.mk.injEq,
      Reassembler.mk.injEq, true_and] at h
    obtain ⟨⟨rfl, rfl, rfl, rfl, rfl⟩, rfl, rfl, rfl⟩ := h
    exact ⟨rfl, rfl, rfl, rfl, rfl, rfl, rfl, rfl⟩
  · rintro ⟨hstate, hns, hnr, hnegotiated, hack, hlen, hexpect, hcomplete⟩
    dsimp only at *
    subst hstate hns hnr hnegotiated hack hlen hexpect hcomplete
    rfl

/-- A frame for this station that changes something. -/
def Affects (c : Connection) (r : Reassembler) (frame : Frame) : Prop :=
  match frame.control with
  | .snrm => c.role = .server ∧ ∃ p, Parameters.decode frame.information = .ok p ∧ ¬ Reopened c r p
  | .ua =>
    if c.state = .connecting then ∃ p, Parameters.decode frame.information = .ok p
    else c.state ≠ .disconnected
  | .disc => ¬ (c.state = .disconnected ∧ c.acknowledging = some .disc)
  | .dm | .frmr => c.state ≠ .disconnected
  | .i ns _ _ => c.state = .connected ∧ ns = c.nr
  | .rr _ _ | .rnr _ _ | .ui => False

theorem state_set {x : LinkState} : ({ c with state := x }, r) = (c, r) ↔ c.state = x := by
  obtain ⟨role, localAddress, peer, state, ns, nr, proposed, negotiated, acknowledging⟩ := c
  simp [eq_comm]

theorem handle_same_iff (hdest : frame.destination = c.localAddress) :
    (handle frame (c, r)).2 = (c, r) ↔ ¬ Affects c r frame := by
  rw [handle_run hdest]
  unfold Affects
  cases frame.control with
  | snrm =>
    dsimp only
    cases hrole : c.role with
    | client => simp
    | server =>
      cases Parameters.decode frame.information with
      | error e => simp
      | ok p => simpa using reopened_iff
  | ua =>
    dsimp only
    split
    · rename_i hconnecting
      cases Parameters.decode frame.information with
      | error e => simp
      | ok p =>
        have hchanged : (c.opened p, r.reset) ≠ (c, r) := by
          intro h
          have hstate := congrArg (fun x : Receiving => x.1.state) h
          rw [show c.state = _ from hconnecting] at hstate
          cases hstate
        simpa using hchanged
    · rw [not_not]
      exact state_set
  | disc =>
    obtain ⟨role, localAddress, peer, state, ns, nr, proposed, negotiated, acknowledging⟩ := c
    simp [eq_comm]
  | dm | frmr =>
    dsimp only
    rw [not_not]
    exact state_set
  | i ns nr pf =>
    dsimp only
    by_cases hconnected : c.state = .connected
    · rw [if_neg (not_not_intro hconnected)]
      by_cases hexpected : ns = c.nr
      · rw [if_neg (by rw [hexpected]; exact (sequence_ne c.nr).2), if_neg (not_not_intro hexpected)]
        have hchanged : ∀ x : Result Event × Receiving, x.2.1.nr = succ8 c.nr → x.2 ≠ (c, r) := by
          intro x hx h
          rw [h] at hx
          exact (sequence_ne c.nr).1 hx.symm
        simp only [hconnected, hexpected, and_self, not_true_eq_false, iff_false]
        apply hchanged
        split <;> rfl
      · have hsame : ∀ e : Result Event, ((if ns = (c.nr + 7) % 8 then (.ok .idle, (c, r))
            else (e, (c, r)) : Result Event × Receiving)).2 = (c, r) := by
          intro e
          split <;> rfl
        rw [if_pos hexpected]
        simp [hsame, hexpected]
    · rw [if_pos hconnected]
      simp [hconnected]
  | rr _ _ | rnr _ _ | ui => simp

theorem handle_ends (frame : Frame) (c : Connection) (r : Reassembler) :
    SameEnds c (handle frame (c, r)).2.1 := by
  by_cases hdest : frame.destination = c.localAddress
  · rw [handle_run hdest]
    repeat' split
    all_goals exact ⟨rfl, rfl, rfl⟩
  · rw [handle_other hdest]
    exact .refl c

end Connection

/-- What closes a link: the station's own doing, or its peer's. -/
def Act.Closes (c : Connection) : Act → Prop
  | .disconnect _ | .reset => True
  | .handle frame => frame.destination = c.localAddress ∧ frame.source = c.peer ∧
      (frame.control = .disc ∨ frame.control = .dm ∨ frame.control = .frmr)
  | _ => False

/-- A frame that goes elsewhere, or comes from elsewhere. -/
def Act.foreign (c : Connection) : Act → Bool
  | .handle frame => frame.destination ≠ c.localAddress || frame.source ≠ c.peer
  | _ => false

namespace Station

open Connection

variable {s : Station}

theorem step_ends (s : Station) (a : Act) : SameEnds s.connection (step s a).connection := by
  by_cases hframe : ∃ frame, a = .handle frame
  · obtain ⟨frame, rfl⟩ := hframe
    exact handle_ends frame s.connection s.into
  · obtain ⟨hmoved, -⟩ := s.step_moved (not_exists.mp hframe)
    generalize (step s a).connection = c' at hmoved
    cases hmoved <;> exact ⟨rfl, rfl, rfl⟩

/-- Frames of others have no effect, and a client's link ends only where it is closed. -/
structure Kept (s : Station) (a : Act) : Prop where
  others : a.foreign s.connection = true → step s a = s
  stays : s.connection.role = .client → s.connection.state = .connected →
    (step s a).connection.state ≠ .connected → a.Closes s.connection

/-- A frame for this station that another station sent and that has an effect, or a UA for a client whose
link is up. -/
def Disturbs (s : Station) : Act → Prop
  | .handle frame => frame.destination = s.connection.localAddress ∧
      (frame.source ≠ s.connection.peer ∧ Affects s.connection s.into frame ∨
        s.connection.role = .client ∧ s.connection.state = .connected ∧ frame.control = .ua)
  | _ => False

theorem step_handle (s : Station) (frame : Frame) :
    step s (.handle frame) = s ↔
      (Connection.handle frame (s.connection, s.into)).2 = (s.connection, s.into) := by
  obtain ⟨c, into, segmenter⟩ := s
  unfold step Run.attempt act
  simp [Prod.ext_iff]

/-- A link that is up stays up, whatever the station does itself but close it. -/
theorem step_stays {a : Act} (hstate : s.connection.state = .connected)
    (hframe : ∀ frame, a ≠ .handle frame) (hopen : ¬ a.Closes s.connection) :
    (step s a).connection.state = .connected := by
  obtain ⟨hmoved, -⟩ := s.step_moved hframe
  generalize (step s a).connection = c' at hmoved
  cases hmoved with
  | same | acknowledged | sent => exact hstate
  | connecting _ hdown => exact absurd hstate hdown
  | disconnecting | reset => exact absurd trivial hopen

theorem not_disturbs_of_kept {frame : Frame} (h : Kept s (.handle frame)) :
    ¬ Disturbs s (.handle frame) := by
  rintro ⟨hdest, ⟨hsource, haffects⟩ | ⟨hrole, hstate, hua⟩⟩
  · have hsame := h.others (by simp [Act.foreign, hsource])
    rw [step_handle, handle_same_iff hdest] at hsame
    exact hsame haffects
  · have hdown : (step s (.handle frame)).connection.state = .disconnected := by
      change (Connection.handle frame (s.connection, s.into)).2.1.state = _
      rw [handle_run hdest, hua]
      dsimp only
      rw [if_neg (by rw [hstate]; decide)]
    obtain ⟨-, -, hcontrol⟩ := h.stays hrole hstate (by rw [hdown]; decide)
    rw [hua] at hcontrol
    revert hcontrol
    decide

theorem kept_of_not_disturbs {frame : Frame} (h : ¬ Disturbs s (.handle frame)) :
    Kept s (.handle frame) := by
  have hothers : Act.foreign s.connection (.handle frame) = true → step s (.handle frame) = s := by
    intro hforeign
    rw [step_handle]
    by_cases hdest : frame.destination = s.connection.localAddress
    · have hsource : frame.source ≠ s.connection.peer := by simpa [Act.foreign, hdest] using hforeign
      exact (handle_same_iff hdest).mpr fun haffects => h ⟨hdest, .inl ⟨hsource, haffects⟩⟩
    · rw [handle_other hdest]
  refine ⟨hothers, fun hrole hstate hdown => ?_⟩
  by_cases hforeign : Act.foreign s.connection (.handle frame) = true
  · rw [hothers hforeign] at hdown
    exact absurd hstate hdown
  · obtain ⟨hdest, hsource⟩ : frame.destination = s.connection.localAddress ∧
        frame.source = s.connection.peer := by simpa [Act.foreign] using hforeign
    refine ⟨hdest, hsource, ?_⟩
    change (Connection.handle frame (s.connection, s.into)).2.1.state ≠ _ at hdown
    rw [handle_run hdest] at hdown
    cases hc : frame.control with
    | disc => exact .inl rfl
    | dm => exact .inr (.inl rfl)
    | frmr => exact .inr (.inr rfl)
    | ua => exact absurd ⟨hdest, .inr ⟨hrole, hstate, hc⟩⟩ h
    | snrm =>
      rw [hc] at hdown
      dsimp only at hdown
      rw [if_pos (by rw [hrole]; decide)] at hdown
      exact absurd hstate hdown
    | i ns nr pf =>
      rw [hc] at hdown
      dsimp only at hdown
      refine absurd ?_ hdown
      repeat' split
      all_goals exact hstate
    | rr _ _ | rnr _ _ | ui =>
      rw [hc] at hdown
      exact absurd hstate hdown

theorem kept_iff (s : Station) (a : Act) : Kept s a ↔ ¬ Disturbs s a := by
  by_cases hframe : ∃ frame, a = .handle frame
  · obtain ⟨frame, rfl⟩ := hframe
    exact ⟨not_disturbs_of_kept, kept_of_not_disturbs⟩
  · have hnone : ∀ frame, a ≠ .handle frame := not_exists.mp hframe
    have hforeign : a.foreign s.connection = false ∧ ¬ Disturbs s a := by
      cases a with
      | handle frame => exact absurd rfl (hnone frame)
      | _ => exact ⟨rfl, id⟩
    refine ⟨fun _ => hforeign.2, fun _ => ⟨fun h => ?_, fun hrole hstate hdown => ?_⟩⟩
    · rw [hforeign.1] at h
      cases h
    · by_contra hopen
      exact hdown (step_stays hstate hnone hopen)

theorem after_ends (s : Station) (acts : List Act) :
    SameEnds s.connection (Run.after step s acts).connection :=
  Run.related (R := fun s s' : Station => SameEnds s.connection s'.connection) (fun s => .refl s.connection)
    (fun _ _ _ h h' => h.trans h') step_ends acts

theorem foreign_ends {c c' : Connection} (h : SameEnds c c') (a : Act) : a.foreign c' = a.foreign c := by
  cases a with
  | handle frame => rw [Act.foreign, Act.foreign, h.localAddress, h.peer]
  | _ => rfl

/-- In a run others have no effect, and a client's link ends only where it is closed, exactly where no
step is one that `Disturbs`. Then the run is one that others have no part in. -/
theorem only_the_peer (s : Station) (acts : List Act) :
    (Run.Meeting step Kept s acts ↔ Run.Meeting step (fun s a => ¬ Disturbs s a) s acts) ∧
    (Run.Meeting step (fun s a => ¬ Disturbs s a) s acts →
      Run.after step s (acts.filter fun a => !a.foreign s.connection) = Run.after step s acts) := by
  constructor
  · constructor
    · intro h past a hp
      exact (kept_iff _ a).mp (h past a hp)
    · intro h past a hp
      exact (kept_iff _ a).mpr (h past a hp)
  · intro h
    induction acts using List.reverseRecOn with
    | nil => rfl
    | append_singleton acts a ih =>
      have hacts := ih (h.of_prefix (List.prefix_append ..))
      have hkept := (kept_iff _ a).mpr (h acts a List.prefix_rfl)
      rw [List.filter_append, Run.after_append, hacts, Run.after_concat]
      cases hforeign : a.foreign s.connection with
      | true =>
        have hsame := hkept.others (by rw [foreign_ends (after_ends s acts), hforeign])
        rw [hsame]
        simp [hforeign]
      | false =>
        simp [hforeign, Run.after]

/-- Bytes of a third station's, and a frame of its that carries none. -/
def sampleThird : Frame := ⟨true, .single 2, .single 3, .i 0 0 false, [7]⟩

def sampleIdle : Frame := { sampleThird with control := .ui }

theorem only_the_peer_sample : Run.after step sampleServer [.handle sampleSnrm] =
    Run.after step sampleServer [.handle sampleSnrm, .handle sampleIdle] := by
  refine (only_the_peer sampleServer [.handle sampleSnrm, .handle sampleIdle]).2 ?_
  refine Run.Meeting.cons_iff.mpr ⟨?_, Run.Meeting.cons_iff.mpr ⟨?_, .nil⟩⟩
  · rintro ⟨-, ⟨hsource, -⟩ | ⟨hrole, -⟩⟩
    · exact hsource rfl
    · cases hrole
  · rintro ⟨-, ⟨-, haffects⟩ | ⟨-, -, hua⟩⟩
    · exact haffects
    · cases hua

/-- A client with room for four bytes. -/
def sampleClient : Station := .new .client (.single 1) (.single 2) .default [0, 0, 0, 0]

def sampleUa : Frame := ⟨false, .single 1, .single 2, .ua, []⟩

/-- A third station's bytes go into the unit, and a repeated UA takes the link down. -/
theorem others_reach_the_link :
    (¬ Run.Meeting step Kept sampleServer [.handle sampleSnrm, .handle sampleThird]) ∧
      ¬ Run.Meeting step Kept sampleClient
        [.connect (List.replicate 64 0), .handle sampleUa, .handle sampleUa] := by
  constructor
  · intro h
    have hkept := (kept_iff _ _).mp (h [.handle sampleSnrm] (.handle sampleThird) (by simp))
    refine hkept ⟨by decide +kernel, .inl ⟨by decide +kernel, ?_⟩⟩
    exact ⟨by decide +kernel, by decide +kernel⟩
  · intro h
    have hkept := (kept_iff _ _).mp
      (h [.connect (List.replicate 64 0), .handle sampleUa] (.handle sampleUa) (by simp))
    exact hkept ⟨by decide +kernel, .inr ⟨by decide +kernel, by decide +kernel, rfl⟩⟩

end Station

end Dlms.Hdlc
