import DlmsCosem.Lib.Run
import DlmsCosem.Transport.Connection

/-!
# Units over a link

Two stations that have exchanged SNRM and UA are `Linked` both ways: what one numbers next the other
expects next, and one sends what the other accepts. A unit goes over the link as `next_frame` gives it and
`handle` takes it, until there are no more frames, and afterwards both ends are linked as before. What a
frame cannot hold is the one thing that stops a unit: parameters of any size are agreed on, and a frame
has 2047 bytes for its fields (`Link.carries_iff`).
-/

namespace Dlms.Hdlc

/-! ## A frame at a time -/

/-- `a` sends what `b` accepts. -/
structure Linked (a b : Connection) : Prop where
  sends : a.state = .connected
  receives : b.state = .connected
  address : a.peer.wire = b.localAddress
  number : a.ns = b.nr
  below : a.ns < 8
  size : a.negotiated.maxInfoTx = b.negotiated.maxInfoRx

/-- Some of a unit has arrived. -/
structure Underway (a b : Connection) (s : Segmenter) (r : Reassembler) : Prop where
  linked : Linked a b
  maxInfo : s.maxInfo = a.negotiated.maxInfoTx.toNat
  fits : min s.lsdu.length s.maxInfo + a.peer.len + a.localAddress.len ≤ 2040
  gathered : r.cleared.gathered = s.lsdu.take s.sent
  expects : r.Expects b.nr
  room : s.lsdu.length ≤ r.buf.length

section Frames

variable {a b : Connection} {s : Segmenter} {r : Reassembler}

theorem length_next (a : Connection) (s : Segmenter) (hmore : s.isDone = false) :
    (s.frame a.peer a.localAddress a.ns a.nr).frameLen =
      a.peer.len + a.localAddress.len + min s.maxInfo (s.lsdu.length - s.sent) + 7 := by
  have hlen := Segmenter.length_segment (s := s) a.peer a.localAddress a.ns a.nr
  have hsent := Segmenter.sent_lt hmore
  have hpos := s.maxInfo_pos
  have hne : (s.frame a.peer a.localAddress a.ns a.nr).information ≠ [] := by
    intro hnil
    rw [hnil, List.length_nil] at hlen
    omega
  rw [Frame.frameLen_nonempty hne, hlen]
  rfl

/-- The number of a frame is the number that goes out. -/
theorem number_wire {n : UInt8} (h : n < 8) (nr : UInt8) (pf : Bool) :
    (Control.i n nr pf).wire = .i n (nr &&& 7) pf := by
  have hwire := Control.wire_of_fits (c := .i n 0 pf) ⟨h, by decide⟩
  simp only [Control.wire, Control.i.injEq] at hwire
  rw [Control.wire, hwire.1]

/-- The next frame is written. -/
theorem Underway.written (h : Underway a b s r) (hmore : s.isDone = false) {out : Bytes}
    (hout : 2049 ≤ out.length) :
    (s.frame a.peer a.localAddress a.ns a.nr).frameLen ≤ 0x7FF ∧
      Connection.nextFrame out (a, s) = (.ok (some (s.frame a.peer a.localAddress a.ns a.nr).encode.data),
        ({ a with ns := succ8 a.ns }, s.advance)) := by
  have hfits := h.fits
  have hlen : (s.frame a.peer a.localAddress a.ns a.nr).frameLen ≤ 0x7FF := by
    rw [length_next a s hmore]
    omega
  refine ⟨hlen, ?_⟩
  rw [Connection.nextFrame_run out h.linked.sends hmore,
    Frame.encodeInto_iff.mpr ⟨hlen, by rw [Frame.encodedLen_eq]; omega, rfl⟩]

/-- The next frame is taken. -/
theorem Underway.taken (h : Underway a b s r) (hmore : s.isDone = false) :
    ∃ hroom, Connection.handle (s.frame a.peer a.localAddress a.ns a.nr).wire (b, r) =
      (.ok (if s.stop < s.lsdu.length then .idle else .lsdu), ({ b with nr := succ8 b.nr },
        r.cleared.stored b.nr (s.frame a.peer a.localAddress a.ns a.nr).wire hroom)) := by
  have hlen := Segmenter.length_segment (s := s) a.peer a.localAddress a.ns a.nr
  have hsent := Segmenter.sent_lt hmore
  have hheld : r.cleared.len = s.sent := by
    rw [← Reassembler.length_gathered, h.gathered, List.length_take]
    omega
  have hcontrol : (s.frame a.peer a.localAddress a.ns a.nr).wire.control =
      .i b.nr (a.nr &&& 7) !decide (s.stop < s.lsdu.length) := by
    rw [← h.linked.number]
    exact number_wire h.linked.below a.nr _
  have haccepts : r.Accepts b.nr (s.frame a.peer a.localAddress a.ns a.nr).wire.information := by
    refine ⟨h.expects, ?_⟩
    have hroom := h.room
    change _ + (s.frame a.peer a.localAddress a.ns a.nr).information.length ≤ _
    rw [hlen]
    omega
  obtain ⟨hroom, hrun⟩ := Connection.handle_accepts (c := b) h.linked.address hcontrol h.linked.receives
    rfl haccepts
  refine ⟨hroom, hrun.trans ?_⟩
  have hsegmented : (s.frame a.peer a.localAddress a.ns a.nr).wire.segmented =
      decide (s.stop < s.lsdu.length) := rfl
  rw [hsegmented]
  by_cases hstop : s.stop < s.lsdu.length <;> simp [hstop]

/-- With a frame sent and taken the ends are linked as before. -/
theorem Linked.next (h : Linked a b) : Linked { a with ns := succ8 a.ns } { b with nr := succ8 b.nr } :=
  ⟨h.sends, h.receives, h.address, congrArg succ8 h.number, succ8_lt a.ns, h.size⟩

/-- The numbers of the other direction make no difference. -/
theorem Linked.renumber (h : Linked a b) (n m : UInt8) : Linked { a with nr := n } { b with ns := m } :=
  ⟨h.sends, h.receives, h.address, h.number, h.below, h.size⟩

/-- What has arrived grows by the segment. -/
theorem Underway.gathers (h : Underway a b s r)
    (hroom : r.cleared.len + (s.frame a.peer a.localAddress a.ns a.nr).wire.information.length ≤
      r.cleared.buf.length) :
    (r.cleared.stored b.nr (s.frame a.peer a.localAddress a.ns a.nr).wire hroom).gathered =
      s.lsdu.take s.stop := by
  rw [Reassembler.gathered_stored, h.gathered]
  exact Segmenter.take_segment ..

/-- A segment that others follow leaves the unit under way. -/
theorem Underway.next (h : Underway a b s r) (hstop : s.stop < s.lsdu.length)
    (hroom : r.cleared.len + (s.frame a.peer a.localAddress a.ns a.nr).wire.information.length ≤
      r.cleared.buf.length) :
    Underway { a with ns := succ8 a.ns } { b with nr := succ8 b.nr } s.advance
      (r.cleared.stored b.nr (s.frame a.peer a.localAddress a.ns a.nr).wire hroom) := by
  have hincomplete : (r.cleared.stored b.nr (s.frame a.peer a.localAddress a.ns a.nr).wire hroom).complete =
      false := by
    change (!decide (s.stop < s.lsdu.length)) = false
    simp [hstop]
  refine ⟨h.linked.next, h.maxInfo, h.fits, ?_, .inr (.inr rfl), ?_⟩
  · rw [Reassembler.cleared_incomplete hincomplete]
    exact h.gathers hroom
  · rw [Reassembler.length_stored hroom, Reassembler.cleared_buf]
    exact h.room

end Frames

/-! ## A unit at a time -/

/-- `next_frame` until it gives none: the frames that were written. A frame takes a byte of the unit at
least, so that one call more than the unit has bytes is enough. -/
def drive (out : Bytes) : (fuel : Nat) → Prog Error (Connection × Segmenter) (List Bytes)
  | 0 => Prog.throw ⟨.invalidLength, 0⟩
  | fuel + 1 => do
    match ← Connection.nextFrame out with
    | none => return []
    | some bytes => return bytes :: (← drive out fuel)

/-- The frames in order, each with what `handle` made of it. -/
def receiveAll : List Bytes → Prog Error Receiving (List (Frame × Event))
  | [] => pure []
  | bytes :: rest => do
    let (frame, _) ← Prog.ofExcept (decodeFrame bytes)
    let event ← Connection.handle frame
    return (frame, event) :: (← receiveAll rest)

/-- A unit from one end to the other. -/
def transfer (out unit : Bytes) : Prog Error (Connection × Receiving) (List (Frame × Event)) :=
  fun (a, x) =>
    match a.segmenter unit with
    | .error e => (.error e, (a, x))
    | .ok segmenter =>
      match drive out (unit.length + 1) (a, segmenter) with
      | (.error e, (a, _)) => (.error e, (a, x))
      | (.ok frames, (a, _)) =>
        let (result, x) := receiveAll frames x
        (result, (a, x))

/-- A unit has arrived: no frame was larger than the receiver accepts, the last one completed the unit and
no other did, and the unit is what was sent. -/
structure Arrived (unit : Bytes) (maxInfo : UInt16) (received : List (Frame × Event)) (r : Reassembler) :
    Prop where
  sizes : ∀ x ∈ received, x.1.information.length ≤ maxInfo.toNat
  events : ∃ n, received.map Prod.snd = List.replicate n .idle ++ [.lsdu]
  whole : r.lsdu = unit
  complete : r.complete = true

section Units

variable {a b : Connection} {s : Segmenter} {r : Reassembler}

theorem drive_cons {out bytes : Bytes} {frames : List Bytes} {fuel : Nat} {x y z : Connection × Segmenter}
    (hnext : Connection.nextFrame out x = (.ok (some bytes), y))
    (hrest : drive out fuel y = (.ok frames, z)) : drive out (fuel + 1) x = (.ok (bytes :: frames), z) := by
  rw [drive, Prog.bind_run_ok hnext]
  exact Prog.bind_run_ok hrest

theorem drive_stop {out : Bytes} {fuel : Nat} {x y : Connection × Segmenter}
    (hnext : Connection.nextFrame out x = (.ok none, y)) : drive out (fuel + 1) x = (.ok [], y) := by
  rw [drive, Prog.bind_run_ok hnext]
  rfl

theorem receiveAll_cons {bytes : Bytes} {rest : List Bytes} {frame : Frame} {used : Nat} {event : Event}
    {received : List (Frame × Event)} {x y z : Receiving} (hframe : decodeFrame bytes = .ok (frame, used))
    (hhandle : Connection.handle frame x = (.ok event, y)) (hrest : receiveAll rest y = (.ok received, z)) :
    receiveAll (bytes :: rest) x = (.ok ((frame, event) :: received), z) := by
  rw [receiveAll, hframe, Prog.ofExcept_ok, Prog.pure_bind_run]
  change (Connection.handle frame >>= _) x = _
  rw [Prog.bind_run_ok hhandle]
  exact Prog.bind_run_ok hrest

/-- The frames of a unit, driven to the end and taken one after another. -/
theorem Underway.arrives (h : Underway a b s r) (hmore : s.isDone = false) {out : Bytes}
    (hout : 2049 ≤ out.length) {fuel : Nat} (hfuel : s.lsdu.length - s.sent < fuel) :
    ∃ frames received n s' r', drive out fuel (a, s) = (.ok frames, ({ a with ns := n }, s')) ∧
      receiveAll frames (b, r) = (.ok received, ({ b with nr := n }, r')) ∧ n < 8 ∧
      r'.buf.length = r.buf.length ∧ Arrived s.lsdu b.negotiated.maxInfoRx received r' := by
  induction fuel generalizing a b s r with
  | zero => omega
  | succ fuel ih =>
    obtain ⟨hlen, hsent⟩ := h.written hmore hout
    obtain ⟨hroom, htaken⟩ := h.taken hmore
    have hdecode := Frame.decodeFrame_wire hlen []
    rw [List.append_nil] at hdecode
    have hbuf : (r.cleared.stored b.nr _ hroom).buf.length = r.buf.length := by
      rw [Reassembler.length_stored, Reassembler.cleared_buf]
    have hsize : (s.frame a.peer a.localAddress a.ns a.nr).wire.information.length ≤
        b.negotiated.maxInfoRx.toNat := by
      change (s.frame a.peer a.localAddress a.ns a.nr).information.length ≤ _
      rw [Segmenter.length_segment, h.maxInfo, h.linked.size]
      exact Nat.min_le_left _ _
    have hlt := Segmenter.sent_lt hmore
    have hstep := Segmenter.sent_lt_stop hmore
    by_cases hstop : s.stop < s.lsdu.length
    · -- Others follow.
      rw [if_pos hstop] at htaken
      have hmore' : s.advance.isDone = false := decide_eq_false (Nat.not_le.mpr hstop)
      obtain ⟨frames, received, n, s', r', hdrive, hreceive, hn, hkept, hsizes, ⟨k, hevents⟩, hwhole,
        hdone⟩ := ih (h.next hstop hroom) hmore' (by change s.lsdu.length - s.stop < fuel; omega)
      refine ⟨_, _, n, s', r', drive_cons hsent hdrive, receiveAll_cons hdecode htaken hreceive, hn,
        hkept.trans hbuf, ⟨?_, ⟨k + 1, ?_⟩, hwhole, hdone⟩⟩
      · rintro x hx
        obtain rfl | hx := List.mem_cons.mp hx
        · exact hsize
        · exact hsizes x hx
      · rw [List.map_cons, hevents, List.replicate_succ]
        rfl
    · -- It is the last one.
      rw [if_neg hstop] at htaken
      have hend : s.stop = s.lsdu.length := by
        unfold Segmenter.stop at hstop ⊢
        omega
      have hdone : s.advance.isDone = true := decide_eq_true (Nat.not_lt.mp hstop)
      obtain ⟨fuel, rfl⟩ : ∃ n, fuel = n + 1 := ⟨fuel - 1, by omega⟩
      have hcomplete :
          (r.cleared.stored b.nr (s.frame a.peer a.localAddress a.ns a.nr).wire hroom).complete = true := by
        change (!decide (s.stop < s.lsdu.length)) = true
        simp [hstop]
      have hnumber : succ8 a.ns = succ8 b.nr := congrArg succ8 h.linked.number
      refine ⟨[_], [_], succ8 b.nr, s.advance, _, ?_, receiveAll_cons hdecode htaken rfl, succ8_lt b.nr, hbuf,
        ⟨?_, ⟨0, rfl⟩, ?_, hcomplete⟩⟩
      · rw [← hnumber]
        exact drive_cons hsent (drive_stop (Connection.nextFrame_done out h.linked.sends hdone))
      · rintro x hx
        obtain rfl := List.mem_singleton.mp hx
        exact hsize
      · rw [Reassembler.lsdu_complete hcomplete, h.gathers hroom, hend, List.take_length]

/-- Nothing has arrived of the next unit. -/
def Ready (r : Reassembler) : Prop := r.complete = true ∨ r.len = 0 ∧ r.expectNs = none

theorem Ready.gathered (h : Ready r) : r.cleared.gathered = [] := by
  have hlen : r.cleared.len = 0 := by
    obtain hcomplete | ⟨hlen, -⟩ := h
    · rw [Reassembler.cleared_complete hcomplete]
      rfl
    · unfold Reassembler.cleared
      split
      · rfl
      · exact hlen
  rw [Reassembler.gathered, hlen, List.take_zero]

/-- A frame of the link holds the largest segment of the unit. -/
def Fits (a : Connection) (unit : Bytes) : Prop :=
  min unit.length a.negotiated.maxInfoTx.toNat + a.peer.len + a.localAddress.len ≤ 2040

theorem segmenter_new (h : Linked a b) (hpos : 0 < a.negotiated.maxInfoTx) (unit : Bytes) :
    ∃ s, a.segmenter unit = .ok s ∧ s.lsdu = unit ∧ s.sent = 0 ∧
      s.maxInfo = a.negotiated.maxInfoTx.toNat := by
  have hne : a.negotiated.maxInfoTx ≠ 0 := by
    rintro hzero
    rw [hzero] at hpos
    exact absurd hpos (by decide)
  have hmax : 0 < a.negotiated.maxInfoTx.toNat := UInt16.lt_iff_toNat_lt.mp hpos
  refine ⟨⟨unit, 0, a.negotiated.maxInfoTx.toNat, Nat.zero_le _, hmax⟩, ?_, rfl, rfl, rfl⟩
  rw [Connection.segmenter, if_neg (not_not_intro h.sends), Segmenter.new, dif_neg hne]

/-- A unit that fits goes over the link whole. -/
theorem transfer_arrives (h : Linked a b) (hpos : 0 < a.negotiated.maxInfoTx) (hready : Ready r)
    {unit out : Bytes} (hunit : unit ≠ []) (hroom : unit.length ≤ r.buf.length) (hout : 2049 ≤ out.length)
    (hfits : Fits a unit) :
    ∃ received n r', transfer out unit (a, (b, r)) =
        (.ok received, ({ a with ns := n }, ({ b with nr := n }, r'))) ∧ n < 8 ∧
      r'.buf.length = r.buf.length ∧ Arrived unit b.negotiated.maxInfoRx received r' := by
  obtain ⟨s, hnew, rfl, hsent, hmax⟩ := segmenter_new h hpos unit
  have hlen := List.length_pos_iff.mpr hunit
  have hunder : Underway a b s r := by
    refine ⟨h, hmax, by rw [hmax]; exact hfits, ?_, ?_, hroom⟩
    · rw [hready.gathered, hsent, List.take_zero]
    · exact hready.imp_right fun hnone => .inl hnone.2
  obtain ⟨frames, received, n, s', r', hdrive, hreceive, hn, hbuf, harrived⟩ :=
    hunder.arrives (decide_eq_false (by omega)) hout
      (show s.lsdu.length - s.sent < s.lsdu.length + 1 by omega)
  refine ⟨received, n, r', ?_, hn, hbuf, harrived⟩
  unfold transfer
  dsimp only
  rw [hnew]
  dsimp only
  rw [hdrive]
  dsimp only
  rw [hreceive]

/-- A unit that does not fit stops at its first frame. -/
theorem transfer_stops (h : Linked a b) (hpos : 0 < a.negotiated.maxInfoTx) {unit out : Bytes}
    (hunit : unit ≠ []) (hfits : ¬ Fits a unit) : ∃ e, (transfer out unit (a, (b, r))).1 = .error e := by
  obtain ⟨s, hnew, rfl, hsent, hmax⟩ := segmenter_new h hpos unit
  have hlen := List.length_pos_iff.mpr hunit
  have hmore : s.isDone = false := decide_eq_false (by omega)
  have hlong : ¬ (s.frame a.peer a.localAddress a.ns a.nr).frameLen ≤ 0x7FF := by
    unfold Fits at hfits
    rw [length_next a s hmore, hmax, hsent]
    omega
  have hnext := Connection.nextFrame_run out h.sends hmore
  match hwrite : SliceWriter.encodeInto (s.frame a.peer a.localAddress a.ns a.nr).encode out with
  | .ok bytes => exact absurd (Frame.encodeInto_iff.mp hwrite).1 hlong
  | .error e =>
    rw [hwrite] at hnext
    refine ⟨e, ?_⟩
    unfold transfer
    dsimp only
    rw [hnew]
    dsimp only
    rw [drive, Prog.bind_run_error hnext]

end Units

/-! ## A link -/

/-- The two ends of a link. -/
structure Link where
  client : Receiving
  server : Receiving

namespace Link

/-- Who sends, where this role does. -/
def sender (l : Link) : Role → Connection
  | .client => l.client.1
  | .server => l.server.1

/-- Who receives, where this role sends. -/
def receiver (l : Link) : Role → Receiving
  | .client => l.server
  | .server => l.client

def put (l : Link) (a : Connection) (x : Receiving) : Role → Link
  | .client => ⟨(a, l.client.2), x⟩
  | .server => ⟨x, (a, l.server.2)⟩

/-- A unit from one of the two ends. -/
def send (out : Bytes) (u : Role × Bytes) : Prog Error Link (List (Frame × Event)) := fun l =>
  let (result, a, x) := transfer out u.2 (l.sender u.1, l.receiver u.1)
  (result, l.put a x u.1)

/-- The unit goes over the link. -/
def Carries (out : Bytes) (l : Link) (u : Role × Bytes) : Prop :=
  ∃ received l', send out u l = (.ok received, l') ∧
    Arrived u.2 (l.receiver u.1).1.negotiated.maxInfoRx received (l'.receiver u.1).2

/-- Both ends are linked. -/
def Up (l : Link) : Prop :=
  ∀ role, Linked (l.sender role) (l.receiver role).1 ∧ 0 < (l.sender role).negotiated.maxInfoTx ∧
    Ready (l.receiver role).2

/-- What a unit leaves as it is. -/
structure Same (l l' : Link) : Prop where
  negotiated : ∀ role, (l'.sender role).negotiated = (l.sender role).negotiated
  peer : ∀ role, (l'.sender role).peer = (l.sender role).peer
  localAddress : ∀ role, (l'.sender role).localAddress = (l.sender role).localAddress
  room : ∀ role, (l'.receiver role).2.buf.length = (l.receiver role).2.buf.length

/-- The handshake: an SNRM that the server takes, and a UA that the client takes. -/
inductive Opens : Link → Link → Prop
  | intro {c c₁ c₂ s s₁ s₂ : Connection} {q q₁ r r₁ : Reassembler} {out out' bytes bytes' : Bytes}
    {snrm ua : Frame} {used used' : Nat} :
    Connection.connect out c = (.ok bytes, c₁) → decodeFrame bytes = .ok (snrm, used) →
    Connection.handle snrm (s, r) = (.ok .acknowledgeRequired, (s₁, r₁)) →
    Connection.acknowledge out' s₁ = (.ok bytes', s₂) → decodeFrame bytes' = .ok (ua, used') →
    Connection.handle ua (c₁, q) = (.ok .connected, (c₂, q₁)) →
    Opens ⟨(c, q), (s, r)⟩ ⟨(c₂, q₁), (s₂, r₁)⟩

theorem connect_ok {c c₁ : Connection} {out bytes : Bytes}
    (h : Connection.connect out c = (.ok bytes, c₁)) :
    SliceWriter.encodeInto (c.snrm c.proposed.encode.data).encode out = .ok bytes ∧
      c₁ = { c with state := .connecting } := by
  rw [Connection.connect_run] at h
  split at h
  · cases h
  · match hwrite : SliceWriter.encodeInto (c.snrm c.proposed.encode.data).encode out with
    | .ok written =>
      rw [hwrite] at h
      obtain ⟨hbytes, rfl⟩ := Prod.mk.inj h
      exact ⟨hbytes, rfl⟩
    | .error e =>
      rw [hwrite] at h
      cases h

theorem snrm_taken {p : Parameters} {snrm : Frame} {s s₁ : Connection} {r r₁ : Reassembler}
    (hc : snrm.control = .snrm) (hinfo : snrm.information = p.encode.data)
    (h : Connection.handle snrm (s, r) = (.ok .acknowledgeRequired, (s₁, r₁))) :
    snrm.destination = s.localAddress ∧ s₁ = { s.opened p with acknowledging := some .snrm } ∧
      r₁ = r.reset := by
  by_cases hdest : snrm.destination = s.localAddress
  · rw [Connection.handle_run hdest, hc, hinfo, p.decode_encode.2.2] at h
    dsimp only at h
    split at h
    · cases h
    · obtain ⟨-, hx⟩ := Prod.mk.inj h
      obtain ⟨rfl, rfl⟩ := Prod.mk.inj hx
      exact ⟨hdest, rfl, rfl⟩
  · rw [Connection.handle_other hdest] at h
    cases h

theorem ua_taken {p : Parameters} {ua : Frame} {c c₁ : Connection} {r r₁ : Reassembler}
    (hc : ua.control = .ua) (hinfo : ua.information = p.encode.data)
    (h : Connection.handle ua (c, r) = (.ok .connected, (c₁, r₁))) :
    ua.destination = c.localAddress ∧ c₁ = c.opened p ∧ r₁ = r.reset := by
  by_cases hdest : ua.destination = c.localAddress
  · rw [Connection.handle_run hdest, hc, hinfo, p.decode_encode.2.2] at h
    dsimp only at h
    split at h
    · obtain ⟨-, hx⟩ := Prod.mk.inj h
      obtain ⟨rfl, rfl⟩ := Prod.mk.inj hx
      exact ⟨hdest, rfl, rfl⟩
    · cases h
  · rw [Connection.handle_other hdest] at h
    cases h

theorem acknowledge_ok {s s₁ : Connection} {out bytes : Bytes} (hpending : s.acknowledging = some .snrm)
    (h : Connection.acknowledge out s = (.ok bytes, s₁)) :
    SliceWriter.encodeInto (s.ua s.negotiated.encode.data).encode out = .ok bytes ∧
      s₁ = { s with acknowledging := none } := by
  rw [Connection.acknowledge_run, hpending] at h
  obtain ⟨hwrite, rfl⟩ := Prod.mk.inj h
  exact ⟨hwrite, rfl⟩

/-- Where each end is the other one's peer, the handshake completes. -/
theorem handshake_completes {c s : Connection} (q r : Reassembler) {out out' : Bytes}
    (hclient : c.role = .client) (hdown : c.state ≠ .connected) (hserver : s.role = .server)
    (hto : c.peer.wire = s.localAddress) (hfrom : s.peer.wire = c.localAddress) (hout : 44 ≤ out.length)
    (hout' : 44 ≤ out'.length) :
    let s' := { s.opened c.proposed with acknowledging := none }
    Opens ⟨(c, q), (s, r)⟩
      ⟨({ c with state := .connecting }.opened s'.negotiated, q.reset), (s', r.reset)⟩ := by
  intro s'
  have hshort := (c.snrm_frameLen c.proposed).1
  have hshort' := (s'.snrm_frameLen s'.negotiated).2
  obtain ⟨hwrite, hread⟩ := Frame.written_read (c.snrm c.proposed.encode.data) out (by omega) (by omega)
  obtain ⟨hwrite', hread'⟩ := Frame.written_read (s'.ua s'.negotiated.encode.data) out' (by omega) (by omega)
  have hconnect : Connection.connect out c =
      (.ok (c.snrm c.proposed.encode.data).encode.data, { c with state := .connecting }) := by
    rw [Connection.connect_run, if_neg (by rintro (h | h); exacts [h hclient, hdown h]), hwrite]
  have htake : Connection.handle (c.snrm c.proposed.encode.data).wire (s, r) = (.ok .acknowledgeRequired,
      ({ s.opened c.proposed with acknowledging := some .snrm }, r.reset)) := by
    refine Connection.handle_snrm hto rfl hserver ?_
    exact c.proposed.decode_encode.2.2
  have hanswer : Connection.acknowledge out' { s.opened c.proposed with acknowledging := some .snrm } =
      (.ok (s'.ua s'.negotiated.encode.data).encode.data, s') := by
    rw [Connection.acknowledge_run]
    exact congrArg (·, s') hwrite'
  have hopen : Connection.handle (s'.ua s'.negotiated.encode.data).wire
      ({ c with state := .connecting }, q) =
        (.ok .connected, ({ c with state := .connecting }.opened s'.negotiated, q.reset)) := by
    refine Connection.handle_ua hfrom rfl rfl ?_
    exact s'.negotiated.decode_encode.2.2
  exact .intro hconnect hread htake hanswer hread' hopen

/-- The handshake links both ends. -/
theorem Opens.linked {l₀ l : Link} (h : Opens l₀ l) (role : Role) :
    Linked (l.sender role) (l.receiver role).1 ∧ Ready (l.receiver role).2 := by
  cases h with
  | @intro c c₁ c₂ s s₁ s₂ q q₁ r r₁ out out' bytes bytes' snrm ua used used' hconnect hsnrm hserver hack hua
      hclient =>
    obtain ⟨hwrite, rfl⟩ := connect_ok hconnect
    obtain rfl := Frame.read_written hwrite hsnrm
    obtain ⟨hdest, rfl, rfl⟩ := snrm_taken (by rfl) (by rfl) hserver
    obtain ⟨hwrite', rfl⟩ := acknowledge_ok (by rfl) hack
    obtain rfl := Frame.read_written hwrite' hua
    obtain ⟨hdest', rfl, rfl⟩ := ua_taken (by rfl) (by rfl) hclient
    obtain ⟨hup, hdown, -, -⟩ := Parameters.negotiate_agrees c.proposed s.proposed
    have hzero : (0 : UInt8) < 8 := by decide
    cases role with
    | client => exact ⟨⟨rfl, rfl, hdest, rfl, hzero, hup⟩, .inr ⟨rfl, rfl⟩⟩
    | server => exact ⟨⟨rfl, rfl, hdest', rfl, hzero, hdown.symm⟩, .inr ⟨rfl, rfl⟩⟩

/-- A unit that has gone over a link that is up leaves it up. -/
theorem up_put {l : Link} (h : l.Up) (role : Role) {n : UInt8} {r' : Reassembler} (hn : n < 8)
    (hready : Ready r') (hbuf : r'.buf.length = (l.receiver role).2.buf.length) :
    let l' := l.put { l.sender role with ns := n } ({ (l.receiver role).1 with nr := n }, r') role
    l'.Up ∧ Same l l' := by
  obtain ⟨⟨c, q⟩, ⟨s, r⟩⟩ := l
  obtain ⟨hclient, hcpos, hcready⟩ := h .client
  obtain ⟨hserver, hspos, hsready⟩ := h .server
  cases role with
  | client =>
    refine ⟨fun role => ?_, ⟨?_, ?_, ?_, ?_⟩⟩
    · cases role with
      | client =>
        exact ⟨⟨hclient.sends, hclient.receives, hclient.address, rfl, hn, hclient.size⟩, hcpos, hready⟩
      | server => exact ⟨hserver.renumber n n, hspos, hsready⟩
    · rintro (_ | _) <;> rfl
    · rintro (_ | _) <;> rfl
    · rintro (_ | _) <;> rfl
    · rintro (_ | _)
      · exact hbuf
      · rfl
  | server =>
    refine ⟨fun role => ?_, ⟨?_, ?_, ?_, ?_⟩⟩
    · cases role with
      | client => exact ⟨hclient.renumber n n, hcpos, hcready⟩
      | server =>
        exact ⟨⟨hserver.sends, hserver.receives, hserver.address, rfl, hn, hserver.size⟩, hspos, hready⟩
    · rintro (_ | _) <;> rfl
    · rintro (_ | _) <;> rfl
    · rintro (_ | _) <;> rfl
    · rintro (_ | _)
      · rfl
      · exact hbuf

theorem put_receiver (l : Link) (a : Connection) (x : Receiving) (role : Role) :
    (l.put a x role).receiver role = x := by
  cases role <;> rfl

/-- A unit goes over a link that is up exactly where it fits, and then the link is up as before. -/
theorem send_iff {l : Link} (h : l.Up) {out : Bytes} (hout : 2049 ≤ out.length) {u : Role × Bytes}
    (hunit : u.2 ≠ []) (hroom : u.2.length ≤ (l.receiver u.1).2.buf.length) :
    (Carries out l u ↔ Fits (l.sender u.1) u.2) ∧ (Fits (l.sender u.1) u.2 →
      (Run.attempt (send out) l u).Up ∧ Same l (Run.attempt (send out) l u)) := by
  obtain ⟨role, unit⟩ := u
  obtain ⟨hlinked, hpos, hready⟩ := h role
  have hsend : ∀ {result a x}, transfer out unit (l.sender role, l.receiver role) = (result, (a, x)) →
      send out (role, unit) l = (result, l.put a x role) := by
    intro result a x htransfer
    exact congrArg (fun y : Result (List (Frame × Event)) × Connection × Receiving =>
      (y.1, l.put y.2.1 y.2.2 role)) htransfer
  by_cases hfits : Fits (l.sender role) unit
  · obtain ⟨received, n, r', htransfer, hn, hbuf, harrived⟩ :=
      transfer_arrives hlinked hpos hready hunit hroom hout hfits
    have hrun := hsend htransfer
    refine ⟨⟨fun _ => hfits, fun _ => ⟨received, _, hrun, ?_⟩⟩, fun _ => ?_⟩
    · rw [put_receiver]
      exact harrived
    · rw [Run.attempt, hrun]
      exact up_put h role hn (.inl harrived.complete) hbuf
  · refine ⟨⟨?_, fun h => absurd h hfits⟩, fun h => absurd h hfits⟩
    rintro ⟨received, l', hrun, -⟩
    obtain ⟨e, he⟩ : ∃ e, (transfer out unit (l.sender role, l.receiver role)).1 = .error e :=
      transfer_stops hlinked hpos hunit hfits
    rw [hsend (Prod.ext he rfl)] at hrun
    cases hrun

theorem run_iff {l : Link} (h : l.Up) {out : Bytes} (hout : 2049 ≤ out.length) {units : List (Role × Bytes)}
    (hunits : ∀ u ∈ units, u.2 ≠ [] ∧ u.2.length ≤ (l.receiver u.1).2.buf.length) :
    Run.Meeting (Run.attempt (send out)) (Carries out) l units ↔ ∀ u ∈ units, Fits (l.sender u.1) u.2 := by
  induction units generalizing l with
  | nil => exact ⟨fun _ => by simp, fun _ => .nil⟩
  | cons u units ih =>
    obtain ⟨hunit, hroom⟩ := hunits u (List.mem_cons_self ..)
    obtain ⟨hiff, hnext⟩ := send_iff h hout hunit hroom
    rw [Run.Meeting.cons_iff, List.forall_mem_cons, hiff]
    refine and_congr_right fun hfits => ?_
    obtain ⟨hup, hsame⟩ := hnext hfits
    rw [ih hup fun v hv => ?_]
    · simp only [Fits, hsame.negotiated, hsame.peer, hsame.localAddress]
    · rw [hsame.room]
      exact hunits v (List.mem_cons_of_mem _ hv)

/-- Over a link that the handshake has opened, each end with room for a byte of information at least, the
units go in both directions, one after another, exactly where a frame holds the largest segment of each. -/
theorem carries_iff {l₀ l : Link} (h : Opens l₀ l) (hpos : ∀ role, 0 < (l.sender role).negotiated.maxInfoTx)
    {out : Bytes} (hout : 2049 ≤ out.length) {units : List (Role × Bytes)}
    (hunits : ∀ u ∈ units, u.2 ≠ [] ∧ u.2.length ≤ (l.receiver u.1).2.buf.length) :
    (∀ role, (l.sender role).negotiated.maxInfoTx = (l.receiver role).1.negotiated.maxInfoRx) ∧
      (Run.Meeting (Run.attempt (send out)) (Carries out) l units ↔
        ∀ u ∈ units, Fits (l.sender u.1) u.2) := by
  have hup : l.Up := fun role => ⟨(h.linked role).1, hpos role, (h.linked role).2⟩
  exact ⟨fun role => (h.linked role).1.size, run_iff hup hout hunits⟩

/-- Two ends that propose `maxInfo` bytes of information, with room for `room` bytes. -/
def sampleEnds (maxInfo : UInt16) (room : Nat) : Link :=
  ⟨(.new .client (.single 1) (.single 2) ⟨maxInfo, maxInfo, 1, 1⟩, .new (List.replicate room 0)),
    (.new .server (.single 2) (.single 1) ⟨maxInfo, maxInfo, 1, 1⟩, .new (List.replicate room 0))⟩

/-- The sample ends with their link open. -/
def sampleLink (maxInfo : UInt16) (room : Nat) : Link :=
  let ends := sampleEnds maxInfo room
  let s := { ends.server.1.opened ends.client.1.proposed with acknowledging := none }
  ⟨({ ends.client.1 with state := .connecting }.opened s.negotiated, ends.client.2.reset),
    (s, ends.server.2.reset)⟩

theorem sample_opens (maxInfo : UInt16) (room : Nat) :
    Opens (sampleEnds maxInfo room) (sampleLink maxInfo room) :=
  have hout : 44 ≤ (List.replicate 44 (0 : UInt8)).length := Nat.le_of_eq List.length_replicate.symm
  handshake_completes _ _ rfl (by simp [Connection.new]) rfl rfl rfl hout hout

theorem sample_room (maxInfo : UInt16) (room : Nat) (role : Role) :
    ((sampleLink maxInfo room).receiver role).2.buf.length = room := by
  cases role <;> exact List.length_replicate

theorem carries_iff_sample : Run.Meeting (Run.attempt (send (List.replicate 2049 0)))
    (Carries (List.replicate 2049 0)) (sampleLink 2 3)
    [(.client, [1, 2, 3]), (.server, [4]), (.client, [5, 6]), (.client, [7, 8, 9])] := by
  refine ((carries_iff (sample_opens 2 3) ?_ ?_ ?_).2.mpr ?_)
  · rintro (_ | _) <;> decide
  · rw [List.length_replicate]
  · decide
  · unfold Fits
    decide

/-- The agreed size lets a segment be larger than a frame. -/
theorem large_unit_stops : Opens (sampleEnds 65535 2039) (sampleLink 65535 2039) ∧
    ∀ out : Bytes, 2049 ≤ out.length → ¬ Run.Meeting (Run.attempt (send out)) (Carries out)
      (sampleLink 65535 2039) [(.client, List.replicate 2039 0)] := by
  refine ⟨sample_opens _ _, fun out hout h => ?_⟩
  have hup : (sampleLink 65535 2039).Up := fun role =>
    ⟨((sample_opens _ _).linked role).1, by cases role <;> decide, ((sample_opens _ _).linked role).2⟩
  have hlen : (List.replicate 2039 (0 : UInt8)).length = 2039 := List.length_replicate
  generalize List.replicate 2039 (0 : UInt8) = unit at h hlen
  have hunits : ∀ u ∈ [(Role.client, unit)],
      u.2 ≠ [] ∧ u.2.length ≤ ((sampleLink 65535 2039).receiver u.1).2.buf.length := by
    intro u hu
    obtain rfl := List.mem_singleton.mp hu
    exact ⟨List.length_pos_iff.mp (by rw [hlen]; decide), by rw [sample_room, hlen]⟩
  have hfits := (run_iff hup hout hunits).mp h _ (List.mem_singleton.mpr rfl)
  unfold Fits at hfits
  rw [hlen] at hfits
  change min 2039 65535 + 1 + 1 ≤ 2040 at hfits
  omega

end Link

end Dlms.Hdlc
