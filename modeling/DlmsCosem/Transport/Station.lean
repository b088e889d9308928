import DlmsCosem.Lib.Run
import DlmsCosem.Transport.Connection

/-!
# Stations

A station is a connection, the reassembler that it is given and the unit that it sends. Each operation
leaves a station as it was where it fails, but for two: `acknowledge` forgets what it answers before it
writes, and `handle` counts an information frame before it knows that the information is kept. What is
left of a run without these two is in `Station.atomic_iff`.
-/

namespace Dlms.Hdlc

structure Station where
  connection : Connection
  into : Reassembler
  segmenter : Option Segmenter

/-- What the caller of a station does. -/
inductive Act
  | connect (out : Bytes)
  | disconnect (out : Bytes)
  | acknowledge (out : Bytes)
  | poll (out : Bytes)
  | segmenter (lsdu : Bytes)
  | nextFrame (out : Bytes)
  | handle (frame : Frame)
  | reset
  /-- The reset of the reassembler. -/
  | discard
  deriving DecidableEq

/-- What the caller gets. -/
inductive Reply
  | written (bytes : Bytes)
  | event (e : Event)
  | done
  deriving Repr, DecidableEq

namespace Station

/-- A station that nothing has happened to. -/
def new (role : Role) (localAddress peer : Address) (proposed : Parameters) (buf : Bytes) : Station :=
  ⟨.new role localAddress peer proposed, .new buf, none⟩

/-- Write a frame of the connection's. -/
def write (m : Prog Error Connection Bytes) : Prog Error Station Reply := fun s =>
  let (result, c) := m s.connection
  (result.map .written, { s with connection := c })

def act : Act → Prog Error Station Reply
  | .connect out => write (Connection.connect out)
  | .disconnect out => write (Connection.disconnect out)
  | .acknowledge out => write (Connection.acknowledge out)
  | .poll out => write (Connection.poll out)
  | .segmenter lsdu => fun s =>
    match s.connection.segmenter lsdu with
    | .ok segmenter => (.ok .done, { s with segmenter := some segmenter })
    | .error e => (.error e, s)
  | .nextFrame out => fun s =>
    match s.segmenter with
    | none => (.ok .done, s)
    | some segmenter =>
      let (result, c, segmenter) := Connection.nextFrame out (s.connection, segmenter)
      (result.map fun bytes => (bytes.map Reply.written).getD .done, ⟨c, s.into, some segmenter⟩)
  | .handle frame => fun s =>
    let (result, c, into) := Connection.handle frame (s.connection, s.into)
    (result.map .event, ⟨c, into, s.segmenter⟩)
  | .reset => fun s => (.ok .done, { s with connection := s.connection.reset })
  | .discard => fun s => (.ok .done, { s with into := s.into.reset })

def step : Station → Act → Station := Run.attempt act

end Station

theorem Station.write_snd (m : Prog Error Connection Bytes) (s : Station) :
    (write m s).2 = { s with connection := (m s.connection).2 } := rfl

/-- What a step that handles no frame makes of the connection. -/
inductive Moved (c : Connection) : Act → Connection → Prop
  | same (a : Act) : Moved c a c
  | connecting (out : Bytes) : c.state ≠ .connected → Moved c (.connect out) { c with state := .connecting }
  | disconnecting (out : Bytes) : Moved c (.disconnect out) { c with state := .disconnecting }
  | acknowledged (out : Bytes) : Moved c (.acknowledge out) { c with acknowledging := none }
  | sent (out : Bytes) : Moved c (.nextFrame out) { c with ns := succ8 c.ns }
  | reset : Moved c .reset c.reset

namespace Station

theorem step_moved (s : Station) {a : Act} (hframe : ∀ frame, a ≠ .handle frame) :
    Moved s.connection a (step s a).connection ∧
      ((step s a).into = s.into ∨ (step s a).into = s.into.reset) := by
  obtain ⟨c, into, segmenter⟩ := s
  cases a with
  | connect out =>
    rw [step, Run.attempt, act, write_snd, Connection.connect_run]
    refine ⟨?_, .inl rfl⟩
    dsimp only
    split
    · exact .same _
    · rename_i hrefuse
      split
      · exact .connecting out fun h => hrefuse (.inr h)
      · exact .same _
  | disconnect out =>
    rw [step, Run.attempt, act, write_snd, Connection.disconnect_run]
    refine ⟨?_, .inl rfl⟩
    dsimp only
    split
    · exact .disconnecting out
    · exact .same _
  | acknowledge out =>
    rw [step, Run.attempt, act, write_snd, Connection.acknowledge_snd]
    exact ⟨.acknowledged out, .inl rfl⟩
  | poll out =>
    rw [step, Run.attempt, act, write_snd, Connection.poll_snd]
    exact ⟨.same _, .inl rfl⟩
  | segmenter lsdu =>
    unfold step Run.attempt act
    dsimp only
    split <;> exact ⟨.same _, .inl rfl⟩
  | nextFrame out =>
    cases segmenter with
    | none => exact ⟨.same _, .inl rfl⟩
    | some segmenter =>
      refine ⟨?_, .inl rfl⟩
      change Moved c _ (Connection.nextFrame out (c, segmenter)).2.1
      obtain h | h := Connection.nextFrame_snd out c segmenter
      · rw [h]
        exact .same _
      · rw [h]
        exact .sent out
  | handle frame => exact absurd rfl (hframe frame)
  | reset => exact ⟨.reset, .inl rfl⟩
  | discard => exact ⟨.same _, .inr rfl⟩

end Station

/-! ## Operations that fail -/

namespace Segmenter

theorem nextFrame_atomic (destination source : Address) (ns nr : UInt8) (out : Bytes) :
    Prog.Atomic (nextFrame destination source ns nr out) := by
  unfold nextFrame
  refine .bind (.gets (fun _ => rfl) _) fun done => ?_
  split
  · exact .pure _
  · refine .bind (.gets (fun _ => rfl) _) fun frame => .bind (.ofExcept (fun _ => rfl) _) fun bytes => ?_
    exact .of_total fun s => ⟨_, _, rfl⟩

end Segmenter

namespace Connection

theorem connect_atomic (out : Bytes) : Prog.Atomic (connect out) := by
  unfold connect
  refine .bind (.gets (fun _ => rfl) _) fun c => ?_
  split
  · exact .throw _
  · refine .bind (.ofExcept (fun _ => rfl) _) fun info => .bind (.ofExcept (fun _ => rfl) _) fun bytes => ?_
    exact .of_total fun s => ⟨_, _, rfl⟩

theorem disconnect_atomic (out : Bytes) : Prog.Atomic (disconnect out) := by
  unfold disconnect
  refine .bind (.gets (fun _ => rfl) _) fun c => .bind (.ofExcept (fun _ => rfl) _) fun bytes => ?_
  exact .of_total fun s => ⟨_, _, rfl⟩

theorem poll_atomic (out : Bytes) : Prog.Atomic (poll out) := by
  unfold poll
  exact .bind (.gets (fun _ => rfl) _) fun c => .ofExcept _

theorem nextFrame_atomic (out : Bytes) : Prog.Atomic (nextFrame out) := by
  refine ⟨fun (c, s) e x h => ?_⟩
  unfold nextFrame at h
  dsimp only at h
  split at h
  · exact (Prod.mk.inj h).2.symm
  · split at h
    · cases h
    · cases h
    · rename_i hrun
      obtain ⟨-, rfl⟩ := Prod.mk.inj h
      rw [(Segmenter.nextFrame_atomic _ _ _ _ _).run _ _ _ hrun]

/-- An acknowledgement that does not fit is lost. -/
theorem acknowledge_atomicAt {c : Connection} {out : Bytes} :
    Prog.AtomicAt (acknowledge out) c ↔ ¬ ∃ pending, c.acknowledging = some pending ∧
      out.length < (c.ua (c.answer pending)).encodedLen := by
  unfold Prog.AtomicAt
  rw [acknowledge_run]
  cases hpending : c.acknowledging with
  | none => simp [eq_comm]
  | some pending =>
    have hlen := c.ua_frameLen pending
    dsimp only
    constructor
    · rintro h ⟨_, hsome, hroom⟩
      obtain rfl := Option.some.inj hsome
      match hwrite : SliceWriter.encodeInto (c.ua (c.answer pending)).encode out with
      | .ok bytes => exact absurd (Frame.encodeInto_iff.mp hwrite).2.1 (Nat.not_le.mpr hroom)
      | .error e =>
        rw [hwrite] at h
        have hsame := h e _ rfl
        rw [← congrArg acknowledging hsame] at hpending
        cases hpending
    · intro h e c' hrun
      have hroom := Nat.not_lt.mp fun hroom => h ⟨pending, rfl, hroom⟩
      rw [Frame.encodeInto_iff.mpr ⟨by omega, hroom, rfl⟩] at hrun
      cases hrun

/-- The frame counts as received, and its information is not kept. -/
structure Miscounts (c : Connection) (r : Reassembler) (frame : Frame) (ns nr : UInt8) (pf : Bool) :
    Prop where
  control : frame.control = .i ns nr pf
  destination : frame.destination = c.localAddress
  connected : c.state = .connected
  expected : ns = c.nr
  refused : ¬ r.Accepts ns frame.information

theorem handle_atomicAt {c : Connection} {r : Reassembler} {frame : Frame} :
    Prog.AtomicAt (handle frame) (c, r) ↔ ¬ ∃ ns nr pf, Miscounts c r frame ns nr pf := by
  constructor
  · rintro h ⟨ns, nr, pf, hm⟩
    obtain ⟨e, hrun, -⟩ := handle_refuses hm.destination hm.control hm.connected hm.expected hm.refused
    have hsame := congrArg (fun x : Receiving => x.1.nr) (h e _ hrun)
    exact (sequence_ne c.nr).1 hsame
  · intro h e x hrun
    by_cases hdest : frame.destination = c.localAddress
    · rw [handle_run hdest] at hrun
      have hleft : ∀ {result : Result Event}, (result, (c, r)) = (.error e, x) → x = (c, r) := by
        intro result heq
        exact (Prod.mk.inj heq).2.symm
      cases hc : frame.control with
      | snrm =>
        rw [hc] at hrun
        dsimp only at hrun
        split at hrun
        · exact hleft hrun
        · split at hrun
          · exact hleft hrun
          · cases hrun
      | ua =>
        rw [hc] at hrun
        dsimp only at hrun
        split at hrun
        · split at hrun
          · exact hleft hrun
          · cases hrun
        · cases hrun
      | disc | dm | frmr | rr _ _ | rnr _ _ | ui =>
        rw [hc] at hrun
        cases hrun
      | i ns nr pf =>
        rw [hc] at hrun
        dsimp only at hrun
        split at hrun
        · exact hleft hrun
        split at hrun
        · cases hrun
        split at hrun
        · exact hleft hrun
        rename_i hconnected _ hexpected
        have haccepts : r.Accepts ns frame.information := by
          by_contra hrefused
          exact h ⟨ns, nr, pf, hc, hdest, not_not.mp hconnected, not_not.mp hexpected, hrefused⟩
        obtain ⟨_, hpush⟩ := Reassembler.push_accepts hc haccepts
        rw [hpush] at hrun
        cases hseg : !frame.segmented <;> rw [hseg] at hrun <;> cases hrun
    · rw [handle_other hdest] at hrun
      cases hrun

end Connection

namespace Station

variable {s : Station}

theorem write_atomicAt {m : Prog Error Connection Bytes} :
    Prog.AtomicAt (write m) s ↔ Prog.AtomicAt m s.connection := by
  obtain ⟨c, into, segmenter⟩ := s
  unfold Prog.AtomicAt write
  match m c with
  | (.ok bytes, c') => simp [Except.map]
  | (.error e, c') => simp [Except.map]

/-- The operation that fails and changes the station. -/
def Spoils (s : Station) : Act → Prop
  | .acknowledge out => ∃ pending, s.connection.acknowledging = some pending ∧
      out.length < (s.connection.ua (s.connection.answer pending)).encodedLen
  | .handle frame => ∃ ns nr pf, s.connection.Miscounts s.into frame ns nr pf
  | _ => False

theorem act_atomicAt (s : Station) (a : Act) : Prog.AtomicAt (act a) s ↔ ¬ Spoils s a := by
  cases a with
  | connect out => simp [act, Spoils, write_atomicAt, (Connection.connect_atomic out).run]
  | disconnect out => simp [act, Spoils, write_atomicAt, (Connection.disconnect_atomic out).run]
  | poll out => simp [act, Spoils, write_atomicAt, (Connection.poll_atomic out).run]
  | acknowledge out => exact write_atomicAt.trans Connection.acknowledge_atomicAt
  | segmenter lsdu =>
    simp only [Spoils, not_false_eq_true, iff_true]
    intro e s' hrun
    unfold act at hrun
    dsimp only at hrun
    split at hrun
    · cases hrun
    · exact (Prod.mk.inj hrun).2.symm
  | nextFrame out =>
    simp only [Spoils, not_false_eq_true, iff_true]
    intro e s' hrun
    unfold act at hrun
    dsimp only at hrun
    split at hrun
    · cases hrun
    · rename_i segmenter hsome
      match hnext : Connection.nextFrame out (s.connection, segmenter) with
      | (.ok bytes, x) =>
        rw [hnext] at hrun
        cases hrun
      | (.error e', x) =>
        rw [hnext] at hrun
        obtain rfl := (Connection.nextFrame_atomic out).run _ _ _ hnext
        obtain ⟨-, rfl⟩ := Prod.mk.inj hrun
        rw [← hsome]
  | handle frame =>
    refine Iff.trans ?_ Connection.handle_atomicAt
    obtain ⟨c, into, segmenter⟩ := s
    unfold Prog.AtomicAt act
    dsimp only
    match Connection.handle frame (c, into) with
    | (.ok event, x) => simp [Except.map]
    | (.error e, x) => simp [Except.map, Prod.ext_iff]
  | reset | discard =>
    simp only [Spoils, not_false_eq_true, iff_true]
    intro e s' hrun
    cases hrun

/-- In a run every operation that fails leaves the station as it was exactly where none of the steps
spoils it, and then the run is one of the operations that ended well. -/
theorem atomic_iff (s : Station) (acts : List Act) :
    (Run.Meeting step (fun s a => Prog.AtomicAt (act a) s) s acts ↔
      Run.Meeting step (fun s a => ¬ Spoils s a) s acts) ∧
    (Run.Meeting step (fun s a => ¬ Spoils s a) s acts →
      Run.after step s (Run.effective act s acts) = Run.after step s acts ∧
        Run.replies act s (Run.effective act s acts) = Run.replies act s acts) := by
  have hiff : Run.Meeting step (fun s a => Prog.AtomicAt (act a) s) s acts ↔
      Run.Meeting step (fun s a => ¬ Spoils s a) s acts := by
    constructor
    · intro h past a hp
      exact (act_atomicAt _ a).mp (h past a hp)
    · intro h past a hp
      exact (act_atomicAt _ a).mpr (h past a hp)
  exact ⟨hiff, fun h => Run.effective_after (hiff.mpr h)⟩

/-- A server with room for four bytes, and the SNRM that opens its link. -/
def sampleServer : Station := .new .server (.single 2) (.single 1) .default [0, 0, 0, 0]

def sampleSnrm : Frame := ⟨false, .single 2, .single 1, .snrm, []⟩

/-- A frame with five bytes. -/
def sampleInformation : Frame := ⟨false, .single 2, .single 1, .i 0 0 true, [1, 2, 3, 4, 5]⟩

/-- What a server is told that tries to connect, accepts a link and answers. -/
def sampleActs : List Act := [.connect [], .handle sampleSnrm, .acknowledge (List.replicate 64 0)]

theorem atomic_iff_sample : Run.after step sampleServer
      [.handle sampleSnrm, .acknowledge (List.replicate 64 0)] = Run.after step sampleServer sampleActs ∧
    (Run.after step sampleServer sampleActs).connection.acknowledging = none := by
  have hmeeting : Run.Meeting step (fun s a => ¬ Spoils s a) sampleServer sampleActs := by
    refine Run.Meeting.cons_iff.mpr ⟨?_, Run.Meeting.cons_iff.mpr ⟨?_,
      Run.Meeting.cons_iff.mpr ⟨?_, .nil⟩⟩⟩
    · exact id
    · rintro ⟨ns, nr, pf, hm⟩
      cases hm.control
    · rintro ⟨pending, -, hroom⟩
      have hlen := Connection.ua_frameLen
        (step (step sampleServer (.connect [])) (.handle sampleSnrm)).connection pending
      rw [Frame.encodedLen_eq, List.length_replicate] at hroom
      omega
  have heffective : Run.effective act sampleServer sampleActs =
      [.handle sampleSnrm, .acknowledge (List.replicate 64 0)] := by
    decide +kernel
  rw [← heffective]
  exact ⟨((atomic_iff sampleServer sampleActs).2 hmeeting).1, by decide +kernel⟩

/-- The UA that did not fit is forgotten, and so is the number of the frame that did not fit. -/
theorem failures_leave_traces :
    let s := Run.after step sampleServer [.handle sampleSnrm]
    (act (.acknowledge []) s).1 = .error ⟨.bufferTooSmall 1, 0⟩ ∧
      (act (.acknowledge (List.replicate 64 0)) (step s (.acknowledge []))).1 =
        .error ⟨.unexpectedMessage, 0⟩ ∧
      (act (.handle sampleInformation) s).1 = .error ⟨.bufferTooSmall 1, 0⟩ ∧
      (act (.handle sampleInformation) (step s (.handle sampleInformation))).1 = .ok (.event .idle) ∧
      ¬ Run.Meeting step (fun s a => Prog.AtomicAt (act a) s) sampleServer
        [.handle sampleSnrm, .acknowledge []] ∧
      ¬ Run.Meeting step (fun s a => Prog.AtomicAt (act a) s) sampleServer
        [.handle sampleSnrm, .handle sampleInformation] := by
  refine ⟨by decide +kernel, by decide +kernel, by decide +kernel, by decide +kernel, ?_, ?_⟩
  · intro h
    have hspoils := (act_atomicAt _ _).mp (h [.handle sampleSnrm] (.acknowledge []) (by simp))
    exact hspoils ⟨.snrm, by decide +kernel, by decide +kernel⟩
  · intro h
    have hspoils := (act_atomicAt _ _).mp (h [.handle sampleSnrm] (.handle sampleInformation) (by simp))
    refine hspoils ⟨0, 0, true, rfl, by decide +kernel, by decide +kernel, by decide +kernel, ?_⟩
    intro haccepts
    exact absurd haccepts.room (by decide +kernel)

end Station

end Dlms.Hdlc
