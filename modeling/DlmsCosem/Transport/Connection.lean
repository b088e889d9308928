import DlmsCosem.Transport.Parameters
import DlmsCosem.Transport.Segments

/-!
# Connections

One HDLC link as one of its two stations sees it: where the link is, the sequence numbers, the parameters
that were agreed, and what is still to be acknowledged. What a station sends is written to a buffer of the
caller's (`connect`, `disconnect`, `acknowledge`, `poll`, `nextFrame`); what it receives goes to `handle`,
with the reassembler for the information.

`handle_i` and its siblings say what one frame does.
-/

namespace Dlms.Hdlc

/-- Which end of the link a connection is. -/
inductive Role
  | client
  | server
  deriving Repr, DecidableEq

/-- Where the link is. -/
inductive LinkState
  | disconnected
  | connecting
  | connected
  | disconnecting
  deriving Repr, DecidableEq

/-- What a received frame means for the caller. -/
inductive Event
  | idle
  | connected
  | disconnected
  | lsdu
  | acknowledgeRequired
  | pollRequired
  deriving Repr, DecidableEq

structure Connection where
  role : Role
  localAddress : Address
  peer : Address
  state : LinkState
  /-- The number of the next information frame that is sent. -/
  ns : UInt8
  /-- The number of the information frame that is expected next. -/
  nr : UInt8
  proposed : Parameters
  negotiated : Parameters
  /-- What the pending acknowledgement answers. -/
  acknowledging : Option Control
  deriving DecidableEq

/-- A connection and the reassembler that it is given. -/
abbrev Receiving := Connection × Reassembler

namespace Frame

/-- A frame with no information field. -/
def controlOnly (destination source : Address) (control : Control) : Frame :=
  ⟨false, destination, source, control, []⟩

end Frame

namespace Connection

def new (role : Role) (localAddress peer : Address) (proposed : Parameters) : Connection :=
  ⟨role, localAddress, peer, .disconnected, 0, 0, proposed, .default, none⟩

/-- `reset_sequence`. -/
def resetSequence (c : Connection) : Connection := { c with ns := 0, nr := 0 }

/-- Forget the link. -/
def reset (c : Connection) : Connection :=
  { c with state := .disconnected, negotiated := .default, acknowledging := none }.resetSequence

/-- The SNRM that `connect` sends, with its information field. -/
def snrm (c : Connection) (information : Bytes) : Frame :=
  ⟨false, c.peer, c.localAddress, .snrm, information⟩

/-- The UA that `acknowledge` sends, with its information field. -/
def ua (c : Connection) (information : Bytes) : Frame :=
  ⟨false, c.peer, c.localAddress, .ua, information⟩

/-- Parameters in a buffer of 32 bytes. -/
def information (p : Parameters) : Result Bytes :=
  SliceWriter.encodeInto p.encode (List.replicate 32 0)

def connect (out : Bytes) : Prog Error Connection Bytes := do
  let c ← Prog.gets id
  if c.role ≠ .client ∨ c.state = .connected then Prog.throw ⟨.unexpectedMessage, 0⟩
  else
    let info ← Prog.ofExcept (information c.proposed)
    let bytes ← Prog.ofExcept (SliceWriter.encodeInto (c.snrm info).encode out)
    Prog.modify fun c => { c with state := .connecting }
    return bytes

def disconnect (out : Bytes) : Prog Error Connection Bytes := do
  let c ← Prog.gets id
  let frame := Frame.controlOnly c.peer c.localAddress .disc
  let bytes ← Prog.ofExcept (SliceWriter.encodeInto frame.encode out)
  Prog.modify fun c => { c with state := .disconnecting }
  return bytes

def acknowledge (out : Bytes) : Prog Error Connection Bytes := do
  let c ← Prog.gets id
  -- `take`: what is pending is forgotten before anything can fail.
  Prog.modify fun c => { c with acknowledging := none }
  match c.acknowledging with
  | none => Prog.throw ⟨.unexpectedMessage, 0⟩
  | some pending =>
    let info ← Prog.ofExcept (if pending = .snrm then information c.negotiated else .ok [])
    Prog.ofExcept (SliceWriter.encodeInto (c.ua info).encode out)

def poll (out : Bytes) : Prog Error Connection Bytes := do
  let c ← Prog.gets id
  let frame := Frame.controlOnly c.peer c.localAddress (.rr c.nr true)
  Prog.ofExcept (SliceWriter.encodeInto frame.encode out)

/-- Split a unit into frames that the link can carry. -/
def segmenter (c : Connection) (lsdu : Bytes) : Result Segmenter :=
  if c.state ≠ .connected then .error ⟨.unexpectedMessage, 0⟩
  else Segmenter.new lsdu c.negotiated.maxInfoTx

/-- The next frame of a unit. -/
def nextFrame (out : Bytes) : Prog Error (Connection × Segmenter) (Option Bytes) := fun (c, s) =>
  if c.state ≠ .connected then (.error ⟨.unexpectedMessage, 0⟩, (c, s))
  else
    match Segmenter.nextFrame c.peer c.localAddress c.ns c.nr out s with
    | (.ok (some bytes), s) => (.ok (some bytes), ({ c with ns := succ8 c.ns }, s))
    | (.ok none, s) => (.ok none, (c, s))
    | (.error e, s) => (.error e, (c, s))

/-- The link is up, with what the peer said. -/
def opened (c : Connection) (peer : Parameters) : Connection :=
  { c.resetSequence with negotiated := c.proposed.negotiate peer, state := .connected }

/-- Change the connection. -/
def onConnection (f : Connection → Connection) : Prog Error Receiving Unit :=
  .modify fun (c, r) => (f c, r)

/-- Feed the frame to the reassembler. -/
def pushInto (frame : Frame) : Prog Error Receiving Bool := fun (c, r) =>
  let (result, r) := Reassembler.push frame r
  (result, (c, r))

/-- Take one received frame and say what it means. -/
def handle (frame : Frame) : Prog Error Receiving Event := do
  let c ← Prog.gets Prod.fst
  if frame.destination ≠ c.localAddress then return .idle
  else
    match frame.control with
    | .snrm =>
      if c.role ≠ .server then Prog.throw ⟨.unexpectedMessage, 0⟩
      else
        let peer ← Prog.ofExcept (Parameters.decode frame.information)
        onConnection fun c => { c.opened peer with acknowledging := some .snrm }
        Prog.modify fun (c, r) => (c, r.reset)
        return .acknowledgeRequired
    | .ua =>
      if c.state = .connecting then
        let peer ← Prog.ofExcept (Parameters.decode frame.information)
        onConnection fun c => c.opened peer
        Prog.modify fun (c, r) => (c, r.reset)
        return .connected
      else
        -- It answers our DISC.
        onConnection fun c => { c with state := .disconnected }
        return .disconnected
    | .disc =>
      onConnection fun c => { c with state := .disconnected, acknowledging := some .disc }
      return .acknowledgeRequired
    | .dm | .frmr =>
      onConnection fun c => { c with state := .disconnected }
      return .disconnected
    | .i ns _ pf =>
      if c.state ≠ .connected then Prog.throw ⟨.unexpectedMessage, 0⟩
      -- A repeat of the frame just accepted.
      else if ns = (c.nr + 7) % 8 then return .idle
      else if ns ≠ c.nr then Prog.throw ⟨.unexpectedMessage, 0⟩
      else
        onConnection fun c => { c with nr := succ8 c.nr }
        if ← pushInto frame then return .lsdu
        else return if pf then .pollRequired else .idle
    | .rr _ _ | .rnr _ _ | .ui => return .idle

/-! ## What is sent -/

theorem information_run (p : Parameters) : information p = .ok p.encode.data := by
  obtain ⟨hfault, hlen, -⟩ := p.decode_encode
  exact SliceWriter.encodeInto_fits hfault (by rw [Emit.size, List.length_replicate]; omega)

/-- The information of the UA that answers `pending`. -/
def answer (c : Connection) (pending : Control) : Bytes :=
  if pending = .snrm then c.negotiated.encode.data else []

/-- An SNRM is short, and so is the UA that answers it. -/
theorem snrm_frameLen (c : Connection) (p : Parameters) :
    (c.snrm p.encode.data).frameLen ≤ 42 ∧ (c.ua p.encode.data).frameLen ≤ 42 := by
  have hinfo := p.decode_encode.2.1
  have hpeer := c.peer.len_le
  have hlocal := c.localAddress.len_le
  have hle := Frame.frameLen_le (c.snrm p.encode.data)
  change _ ≤ c.peer.len + c.localAddress.len + p.encode.data.length + 7 at hle
  exact ⟨by omega, by change (c.snrm p.encode.data).frameLen ≤ 42; omega⟩

theorem ua_frameLen (c : Connection) (pending : Control) : (c.ua (c.answer pending)).frameLen ≤ 42 := by
  unfold answer
  split
  · exact (c.snrm_frameLen c.negotiated).2
  · have hpeer := c.peer.len_le
    have hlocal := c.localAddress.len_le
    have hle := Frame.frameLen_le (c.ua [])
    change _ ≤ c.peer.len + c.localAddress.len + 0 + 7 at hle
    omega

theorem acknowledge_run (c : Connection) (out : Bytes) : acknowledge out c =
    match c.acknowledging with
    | none => (.error ⟨.unexpectedMessage, 0⟩, c)
    | some pending => (SliceWriter.encodeInto (c.ua (c.answer pending)).encode out,
        { c with acknowledging := none }) := by
  unfold acknowledge
  rw [Prog.gets_bind_run, Prog.modify_bind_run]
  obtain ⟨role, localAddress, peer, state, ns, nr, proposed, negotiated, acknowledging⟩ := c
  cases acknowledging with
  | none => rfl
  | some pending =>
    simp only [id_eq, answer]
    by_cases hpending : pending = .snrm
    · rw [if_pos hpending, if_pos hpending, information_run]
      simp
    · rw [if_neg hpending, if_neg hpending]
      simp

theorem connect_run (out : Bytes) (c : Connection) : connect out c =
    if c.role ≠ .client ∨ c.state = .connected then (.error ⟨.unexpectedMessage, 0⟩, c)
    else
      match SliceWriter.encodeInto (c.snrm c.proposed.encode.data).encode out with
      | .ok bytes => (.ok bytes, { c with state := .connecting })
      | .error e => (.error e, c) := by
  unfold connect
  rw [Prog.gets_bind_run]
  simp only [id_eq]
  by_cases hrefuse : c.role ≠ .client ∨ c.state = .connected
  · rw [if_pos hrefuse, if_pos hrefuse]
    rfl
  · rw [if_neg hrefuse, if_neg hrefuse, information_run, Prog.ofExcept_ok, Prog.pure_bind_run]
    cases SliceWriter.encodeInto (c.snrm c.proposed.encode.data).encode out <;> rfl

theorem disconnect_run (out : Bytes) (c : Connection) : disconnect out c =
    match SliceWriter.encodeInto (Frame.controlOnly c.peer c.localAddress .disc).encode out with
    | .ok bytes => (.ok bytes, { c with state := .disconnecting })
    | .error e => (.error e, c) := by
  unfold disconnect
  rw [Prog.gets_bind_run]
  simp only [id_eq]
  cases SliceWriter.encodeInto (Frame.controlOnly c.peer c.localAddress .disc).encode out <;> rfl

theorem acknowledge_snd (out : Bytes) (c : Connection) :
    (acknowledge out c).2 = { c with acknowledging := none } := by
  rw [acknowledge_run]
  obtain ⟨role, localAddress, peer, state, ns, nr, proposed, negotiated, acknowledging⟩ := c
  cases acknowledging <;> rfl

theorem poll_snd (out : Bytes) (c : Connection) : (poll out c).2 = c := by
  unfold poll
  rw [Prog.gets_bind_run, Prog.ofExcept_run]

theorem nextFrame_down (out : Bytes) {c : Connection} (s : Segmenter) (h : c.state ≠ .connected) :
    nextFrame out (c, s) = (.error ⟨.unexpectedMessage, 0⟩, (c, s)) := if_pos h

theorem nextFrame_done (out : Bytes) {c : Connection} {s : Segmenter} (h : c.state = .connected)
    (hdone : s.isDone = true) : nextFrame out (c, s) = (.ok none, (c, s)) := by
  unfold nextFrame
  dsimp only
  rw [if_neg (not_not_intro h), Segmenter.nextFrame_done hdone]

/-- The next frame is written where it fits, and nothing is changed where it does not. -/
theorem nextFrame_run (out : Bytes) {c : Connection} {s : Segmenter} (h : c.state = .connected)
    (hmore : s.isDone = false) : nextFrame out (c, s) =
      match SliceWriter.encodeInto (s.frame c.peer c.localAddress c.ns c.nr).encode out with
      | .ok bytes => (.ok (some bytes), ({ c with ns := succ8 c.ns }, s.advance))
      | .error e => (.error e, (c, s)) := by
  unfold nextFrame
  dsimp only
  rw [if_neg (not_not_intro h), Segmenter.nextFrame_run hmore]
  cases SliceWriter.encodeInto (s.frame c.peer c.localAddress c.ns c.nr).encode out <;> rfl

theorem nextFrame_snd (out : Bytes) (c : Connection) (s : Segmenter) :
    (nextFrame out (c, s)).2.1 = c ∨ (nextFrame out (c, s)).2.1 = { c with ns := succ8 c.ns } := by
  unfold nextFrame
  dsimp only
  split
  · exact .inl rfl
  · split
    · exact .inr rfl
    · exact .inl rfl
    · exact .inl rfl

/-! ## What is received -/

section Handle

variable {c : Connection} {r : Reassembler} {frame : Frame}

theorem handle_other (h : frame.destination ≠ c.localAddress) :
    handle frame (c, r) = (.ok .idle, (c, r)) := by
  unfold handle
  rw [Prog.gets_bind_run]
  exact congrFun (if_pos h) (c, r)

/-- What a frame for this station does. -/
theorem handle_run (h : frame.destination = c.localAddress) : handle frame (c, r) =
    match frame.control with
    | .snrm =>
      if c.role ≠ .server then (.error ⟨.unexpectedMessage, 0⟩, (c, r))
      else
        match Parameters.decode frame.information with
        | .error e => (.error e, (c, r))
        | .ok peer => (.ok .acknowledgeRequired,
            ({ c.opened peer with acknowledging := some .snrm }, r.reset))
    | .ua =>
      if c.state = .connecting then
        match Parameters.decode frame.information with
        | .error e => (.error e, (c, r))
        | .ok peer => (.ok .connected, (c.opened peer, r.reset))
      else (.ok .disconnected, ({ c with state := .disconnected }, r))
    | .disc => (.ok .acknowledgeRequired,
        ({ c with state := .disconnected, acknowledging := some .disc }, r))
    | .dm | .frmr => (.ok .disconnected, ({ c with state := .disconnected }, r))
    | .i ns _ pf =>
      if c.state ≠ .connected then (.error ⟨.unexpectedMessage, 0⟩, (c, r))
      else if ns = (c.nr + 7) % 8 then (.ok .idle, (c, r))
      else if ns ≠ c.nr then (.error ⟨.unexpectedMessage, 0⟩, (c, r))
      else
        match Reassembler.push frame r with
        | (.error e, r) => (.error e, ({ c with nr := succ8 c.nr }, r))
        | (.ok true, r) => (.ok .lsdu, ({ c with nr := succ8 c.nr }, r))
        | (.ok false, r) => (.ok (if pf then .pollRequired else .idle), ({ c with nr := succ8 c.nr }, r))
    | .rr _ _ | .rnr _ _ | .ui => (.ok .idle, (c, r)) := by
  unfold handle
  rw [Prog.gets_bind_run]
  simp only [h, ne_eq, not_true_eq_false, if_false]
  cases frame.control with
  | snrm =>
    dsimp only
    split
    · rfl
    · cases Parameters.decode frame.information <;> rfl
  | ua =>
    dsimp only
    split
    · cases Parameters.decode frame.information <;> rfl
    · rfl
  | disc | dm | frmr | rr _ _ | rnr _ _ | ui => rfl
  | i ns nr pf =>
    dsimp only
    split
    · rfl
    · split
      · rfl
      · split
        · rfl
        · rw [onConnection, Prog.modify_bind_run, Prog.bind_run, pushInto]
          dsimp only
          match Reassembler.push frame r with
          | (.error e, r) => rfl
          | (.ok true, r) => rfl
          | (.ok false, r) => cases pf <;> rfl

/-- A server takes an SNRM. -/
theorem handle_snrm {p : Parameters} (hdest : frame.destination = c.localAddress)
    (hc : frame.control = .snrm) (hrole : c.role = .server)
    (hinfo : Parameters.decode frame.information = .ok p) : handle frame (c, r) =
      (.ok .acknowledgeRequired, ({ c.opened p with acknowledging := some .snrm }, r.reset)) := by
  rw [handle_run hdest, hc]
  dsimp only
  rw [if_neg (not_not_intro hrole), hinfo]

/-- A client takes the UA that answers its SNRM. -/
theorem handle_ua {p : Parameters} (hdest : frame.destination = c.localAddress)
    (hc : frame.control = .ua) (hstate : c.state = .connecting)
    (hinfo : Parameters.decode frame.information = .ok p) :
    handle frame (c, r) = (.ok .connected, (c.opened p, r.reset)) := by
  rw [handle_run hdest, hc]
  dsimp only
  rw [if_pos hstate, hinfo]

/-- The information frame that is expected, where the reassembler takes its information. -/
theorem handle_accepts {ns nr : UInt8} {pf : Bool} (hdest : frame.destination = c.localAddress)
    (hc : frame.control = .i ns nr pf) (hconnected : c.state = .connected) (hns : ns = c.nr)
    (haccepts : r.Accepts ns frame.information) :
    ∃ hroom, handle frame (c, r) =
      (.ok (if frame.segmented then if pf then .pollRequired else .idle else .lsdu),
        ({ c with nr := succ8 c.nr }, r.cleared.stored ns frame hroom)) := by
  obtain ⟨hroom, hpush⟩ := Reassembler.push_accepts hc haccepts
  refine ⟨hroom, ?_⟩
  rw [handle_run hdest, hc]
  dsimp only
  rw [if_neg (not_not_intro hconnected), if_neg (by rw [hns]; exact (sequence_ne c.nr).2),
    if_neg (not_not_intro hns), hpush]
  cases frame.segmented <;> rfl

/-- The information frame that is expected, where the reassembler refuses it. -/
theorem handle_refuses {ns nr : UInt8} {pf : Bool} (hdest : frame.destination = c.localAddress)
    (hc : frame.control = .i ns nr pf) (hconnected : c.state = .connected) (hns : ns = c.nr)
    (hrefuses : ¬ r.Accepts ns frame.information) :
    ∃ e, handle frame (c, r) = (.error e, ({ c with nr := succ8 c.nr }, r.cleared)) ∧
      (e.kind = .unexpectedMessage ↔ ¬ r.Expects ns) := by
  obtain ⟨e, hpush, hkind⟩ := Reassembler.push_refuses hc hrefuses
  refine ⟨e, ?_, hkind⟩
  rw [handle_run hdest, hc]
  dsimp only
  rw [if_neg (not_not_intro hconnected), if_neg (by rw [hns]; exact (sequence_ne c.nr).2),
    if_neg (not_not_intro hns), hpush]

end Handle

end Connection

end Dlms.Hdlc
