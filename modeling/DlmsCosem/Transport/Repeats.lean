import DlmsCosem.Transport.Exchange
import DlmsCosem.Transport.Station

/-!
# Repeats and gaps

Information frames are numbered modulo eight. A receiver passes over the number before the one that it
expects, a repeat, and names every other number. Whatever is repeated or lost on the way, up to six frames
in a row, the units that a receiver gathers before its first error are those that were sent, in order
(`units_in_order`). The number before is not always that of a frame that was accepted: `Misread`.
-/

namespace Dlms.Hdlc

/-! ## What is sent -/

/-- Units that a station sends, one driven to its end before the next, and the frames that have gone out.
Between two frames the station may do whatever leaves its number and the addresses. -/
inductive Sent (a₀ : Connection) : List Bytes → List Frame → Connection → Segmenter → Prop
  | start {unit : Bytes} {s : Segmenter} : unit ≠ [] → a₀.segmenter unit = .ok s → Sent a₀ [unit] [] a₀ s
  | frame {units : List Bytes} {frames : List Frame} {a a' : Connection} {s s' : Segmenter}
    {out bytes : Bytes} {f : Frame} {used : Nat} : Sent a₀ units frames a s →
    Connection.nextFrame out (a, s) = (.ok (some bytes), (a', s')) → decodeFrame bytes = .ok (f, used) →
    Sent a₀ units (frames ++ [f]) a' s'
  | unit {units : List Bytes} {frames : List Frame} {a : Connection} {s s' : Segmenter} {unit : Bytes} :
    Sent a₀ units frames a s → s.isDone = true → unit ≠ [] → a.segmenter unit = .ok s' →
    Sent a₀ (units ++ [unit]) frames a s'
  | other {units : List Bytes} {frames : List Frame} {a a' : Connection} {s : Segmenter} :
    Sent a₀ units frames a s → a'.ns = a.ns → a'.peer = a.peer → a'.localAddress = a.localAddress →
    Sent a₀ units frames a' s

/-- A frame behind the units that are whole and the bytes that are not. -/
def taken (x : List Bytes × Bytes) (f : Frame) : List Bytes × Bytes :=
  if f.segmented then (x.1, x.2 ++ f.information) else (x.1 ++ [x.2 ++ f.information], [])

theorem taken_prefix (x : List Bytes × Bytes) (fs : List Frame) : x.1 <+: (fs.foldl taken x).1 := by
  induction fs generalizing x with
  | nil => exact List.prefix_rfl
  | cons f fs ih =>
    refine List.IsPrefix.trans ?_ (ih (taken x f))
    unfold taken
    split
    · exact List.prefix_rfl
    · exact List.prefix_append _ _

/-- Frames to one station, with numbers that follow each other. -/
def Numbered (destination : Address) : UInt8 → List Frame → Prop
  | _, [] => True
  | n, f :: fs => f.destination = destination ∧ (∃ nr pf, f.control = .i n nr pf) ∧
      Numbered destination (succ8 n) fs

theorem numbered_append {destination : Address} {n : UInt8} {fs gs : List Frame} :
    Numbered destination n (fs ++ gs) ↔
      Numbered destination n fs ∧ Numbered destination (succ8^[fs.length] n) gs := by
  induction fs generalizing n with
  | nil => simp [Numbered]
  | cons f fs ih =>
    rw [List.cons_append, Numbered, Numbered, ih, List.length_cons, Function.iterate_succ_apply]
    simp only [and_assoc]

section Sender

variable {a₀ a a' : Connection} {s s' : Segmenter} {units : List Bytes} {frames : List Frame}

theorem segmenter_ok {unit : Bytes} (h : a.segmenter unit = .ok s) : s.lsdu = unit ∧ s.sent = 0 := by
  unfold Connection.segmenter at h
  split at h
  · cases h
  · unfold Segmenter.new at h
    split at h
    · cases h
    · obtain rfl := Except.ok.inj h
      exact ⟨rfl, rfl⟩

theorem segmenter_more {unit : Bytes} (hunit : unit ≠ []) (h : a.segmenter unit = .ok s) :
    s.isDone = false := by
  obtain ⟨hlsdu, hsent⟩ := segmenter_ok h
  have hlen := List.length_pos_iff.mpr hunit
  exact decide_eq_false (by rw [hlsdu, hsent]; omega)

/-- A frame that goes out. -/
theorem nextFrame_some {out bytes : Bytes} {f : Frame} {used : Nat}
    (h : Connection.nextFrame out (a, s) = (.ok (some bytes), (a', s')))
    (hf : decodeFrame bytes = .ok (f, used)) : s.isDone = false ∧
      f = (s.frame a.peer a.localAddress a.ns a.nr).wire ∧ a' = { a with ns := succ8 a.ns } ∧
      s' = s.advance := by
  by_cases hconnected : a.state = .connected
  · cases hdone : s.isDone with
    | true =>
      rw [Connection.nextFrame_done out hconnected hdone] at h
      cases h
    | false =>
      rw [Connection.nextFrame_run out hconnected hdone] at h
      match hwrite : SliceWriter.encodeInto (s.frame a.peer a.localAddress a.ns a.nr).encode out with
      | .error e =>
        rw [hwrite] at h
        cases h
      | .ok written =>
        rw [hwrite] at h
        obtain ⟨hbytes, hstate⟩ := Prod.mk.inj h
        obtain rfl := Option.some.inj (Except.ok.inj hbytes)
        obtain ⟨rfl, rfl⟩ := Prod.mk.inj hstate
        exact ⟨rfl, Frame.read_written hwrite hf, rfl, rfl⟩
  · rw [Connection.nextFrame_down out s hconnected] at h
    cases h

/-- The frames hold the units that are done, and what is sent of the last one. -/
theorem Sent.gathers (h : Sent a₀ units frames a s) : ∃ past, units = past ++ [s.lsdu] ∧
    frames.foldl taken ([], []) = if s.isDone then (units, []) else (past, s.lsdu.take s.sent) := by
  induction h with
  | start hunit hnew =>
    obtain ⟨rfl, hsent⟩ := segmenter_ok hnew
    exact ⟨[], rfl, by simp [segmenter_more hunit hnew, hsent]⟩
  | @frame units frames a a' s s' out bytes f used _ hnext hf ih =>
    obtain ⟨past, hunits, hgather⟩ := ih
    obtain ⟨hmore, rfl, rfl, rfl⟩ := nextFrame_some hnext hf
    refine ⟨past, hunits, ?_⟩
    rw [List.foldl_append, hgather, hmore]
    change taken (past, s.lsdu.take s.sent) (s.frame a.peer a.localAddress a.ns a.nr).wire =
      if decide (s.lsdu.length ≤ s.stop) = true then (units, []) else (past, s.lsdu.take s.stop)
    have hsegment : s.lsdu.take s.sent ++ (s.frame a.peer a.localAddress a.ns a.nr).wire.information =
        s.lsdu.take s.stop := Segmenter.take_segment ..
    unfold taken
    rw [hsegment]
    change (if decide (s.stop < s.lsdu.length) = true then _ else _) = _
    by_cases hstop : s.stop < s.lsdu.length
    · rw [if_pos (decide_eq_true hstop), if_neg (by simpa using hstop)]
    · rw [if_neg (by simpa using hstop), if_pos (by simpa using Nat.not_lt.mp hstop),
        List.take_of_length_le (Nat.not_lt.mp hstop), hunits]
  | unit _ hdone hunit hnew ih =>
    obtain ⟨past, hunits, hgather⟩ := ih
    obtain ⟨rfl, hsent⟩ := segmenter_ok hnew
    refine ⟨_, rfl, ?_⟩
    rw [hgather, hdone]
    simp [segmenter_more hunit hnew, hsent]
  | other _ _ _ _ ih => exact ih

/-- The frames are numbered one after another. -/
theorem Sent.numbered (h : Sent a₀ units frames a s) (hbelow : a₀.ns < 8) :
    Numbered a₀.peer.wire a₀.ns frames ∧ a.ns = succ8^[frames.length] a₀.ns ∧ a.ns < 8 ∧
      a.peer = a₀.peer := by
  induction h with
  | start _ _ => exact ⟨trivial, rfl, hbelow, rfl⟩
  | @frame units frames a a' s s' out bytes f used _ hnext hf ih =>
    obtain ⟨hfs, hns, hlt, hpeer⟩ := ih
    obtain ⟨hmore, rfl, rfl, rfl⟩ := nextFrame_some hnext hf
    refine ⟨numbered_append.mpr ⟨hfs, ?_, ⟨a.nr &&& 7, !decide (s.stop < s.lsdu.length), ?_⟩,
      trivial⟩, ?_, succ8_lt a.ns, hpeer⟩
    · exact congrArg Address.wire hpeer
    · rw [← hns]
      exact number_wire hlt a.nr _
    · rw [List.length_append, List.length_singleton, Function.iterate_succ_apply', ← hns]
  | unit _ _ _ _ ih => exact ih
  | other _ hns hpeer _ ih =>
    rw [hns, hpeer]
    exact ih

/-- A frame that is not too long goes out. -/
theorem Sent.next (h : Sent a₀ units frames a s) (hconnected : a.state = .connected)
    (hmore : s.isDone = false) (hlen : (s.frame a.peer a.localAddress a.ns a.nr).frameLen ≤ 0x7FF) :
    Sent a₀ units (frames ++ [(s.frame a.peer a.localAddress a.ns a.nr).wire]) { a with ns := succ8 a.ns }
      s.advance := by
  have hroom : (s.frame a.peer a.localAddress a.ns a.nr).frameLen + 2 ≤
      (List.replicate 2049 (0 : UInt8)).length := by
    rw [List.length_replicate]
    omega
  obtain ⟨hwrite, hread⟩ := Frame.written_read _ _ hlen hroom
  have hnext := Connection.nextFrame_run (List.replicate 2049 0) hconnected hmore
  rw [hwrite] at hnext
  exact h.frame hnext hread

end Sender

/-! ## What arrives -/

/-- What arrives of some frames, behind a last one: that one may arrive again, and up to six frames may be
lost before the next. -/
inductive Delivers : Option Frame → List Frame → List Frame → Prop
  | done (last : Option Frame) (rest : List Frame) : Delivers last rest []
  | again {f : Frame} {rest arriving : List Frame} :
    Delivers (some f) rest arriving → Delivers (some f) rest (f :: arriving)
  | next {last : Option Frame} (lost : List Frame) {f : Frame} {rest arriving : List Frame} :
    lost.length ≤ 6 → Delivers (some f) rest arriving → Delivers last (lost ++ f :: rest) (f :: arriving)

/-- The units that `handle` completes, up to its first error. -/
def listen : List Frame → Receiving → List Bytes
  | [], _ => []
  | f :: fs, x =>
    match Connection.handle f x with
    | (.error _, _) => []
    | (.ok .lsdu, x) => x.2.lsdu :: listen fs x
    | (.ok _, x) => listen fs x

/-- The numbers around one that is expected: the one before is a repeat, and up to six lost frames do not
lead there. -/
theorem sequence_lost {n : UInt8} (h : n < 8) {k : Nat} (hk : k ≤ 6) : (succ8 n + 7) % 8 = n ∧
    (0 < k → succ8^[k] n ≠ (n + 7) % 8 ∧ succ8^[k] n ≠ n) := by
  have hall : ∀ (m : Fin 8) (j : Fin 7), (succ8 (UInt8.ofNat m) + 7) % 8 = UInt8.ofNat m ∧
      (0 < j.val → succ8^[j.val] (UInt8.ofNat m) ≠ (UInt8.ofNat m + 7) % 8 ∧
        succ8^[j.val] (UInt8.ofNat m) ≠ UInt8.ofNat m) := by decide +kernel
  have hn := hall ⟨n.toNat, UInt8.lt_iff_toNat_lt.mp h⟩ ⟨k, Nat.lt_succ_of_le hk⟩
  rwa [UInt8.ofNat_toNat] at hn

namespace Connection

variable {c : Connection} {r : Reassembler} {frame : Frame} {ns nr : UInt8} {pf : Bool}

/-- A repeat is passed over. -/
theorem handle_repeat (hdest : frame.destination = c.localAddress) (hc : frame.control = .i ns nr pf)
    (hconnected : c.state = .connected) (hns : ns = (c.nr + 7) % 8) :
    handle frame (c, r) = (.ok .idle, (c, r)) := by
  rw [handle_run hdest, hc]
  dsimp only
  rw [if_neg (not_not_intro hconnected), if_pos hns]

/-- Any other number is named. -/
theorem handle_gap (hdest : frame.destination = c.localAddress) (hc : frame.control = .i ns nr pf)
    (hconnected : c.state = .connected) (hrepeat : ns ≠ (c.nr + 7) % 8) (hns : ns ≠ c.nr) :
    handle frame (c, r) = (.error ⟨.unexpectedMessage, 0⟩, (c, r)) := by
  rw [handle_run hdest, hc]
  dsimp only
  rw [if_neg (not_not_intro hconnected), if_neg hrepeat, if_pos hns]

end Connection

/-- A receiver has taken the units and bytes `x`, and `last` at the end. -/
structure Heard (x : List Bytes × Bytes) (last : Option Frame) (b : Connection) (r : Reassembler) : Prop where
  connected : b.state = .connected
  below : b.nr < 8
  part : r.cleared.gathered = x.2
  expects : r.Expects b.nr
  repeats : ∀ f, last = some f → f.destination = b.localAddress ∧
    ∃ n nr pf, f.control = .i n nr pf ∧ n < 8 ∧ b.nr = succ8 n

section Receiver

variable {b : Connection} {r : Reassembler} {x : List Bytes × Bytes} {last : Option Frame}

/-- The frame that is expected is taken. -/
theorem Heard.takes (h : Heard x last b r) {f : Frame} {nr : UInt8} {pf : Bool}
    (hdest : f.destination = b.localAddress) (hc : f.control = .i b.nr nr pf)
    (haccepts : r.Accepts b.nr f.information) : ∃ event r', Connection.handle f (b, r) =
        (.ok event, ({ b with nr := succ8 b.nr }, r')) ∧
      Heard (taken x f) (some f) { b with nr := succ8 b.nr } r' ∧
      (taken x f).1 = x.1 ++ if event = .lsdu then [r'.lsdu] else [] := by
  obtain ⟨hroom, hrun⟩ := Connection.handle_accepts hdest hc h.connected rfl haccepts
  have hgathered : (r.cleared.stored b.nr f hroom).gathered = x.2 ++ f.information := by
    rw [Reassembler.gathered_stored, h.part]
  have hrepeats : ∀ g, some f = some g → g.destination = b.localAddress ∧
      ∃ n nr pf, g.control = .i n nr pf ∧ n < 8 ∧ succ8 b.nr = succ8 n := by
    rintro g hg
    obtain rfl := Option.some.inj hg
    exact ⟨hdest, b.nr, nr, pf, hc, h.below, rfl⟩
  have hcomplete : (r.cleared.stored b.nr f hroom).complete = !f.segmented := rfl
  unfold taken
  cases hseg : f.segmented with
  | true =>
    rw [hseg] at hrun hcomplete
    refine ⟨_, _, hrun, ⟨h.connected, succ8_lt b.nr, ?_, .inr (.inr rfl), hrepeats⟩, ?_⟩
    · rw [Reassembler.cleared_incomplete hcomplete]
      exact hgathered
    · cases pf <;> simp
  | false =>
    rw [hseg] at hrun hcomplete
    refine ⟨_, _, hrun, ⟨h.connected, succ8_lt b.nr, ?_, .inr (.inr rfl), hrepeats⟩, ?_⟩
    · rw [Reassembler.cleared_complete hcomplete]
      rfl
    · simp [Reassembler.lsdu_complete hcomplete, hgathered]

/-- The units that are completed are units that were sent, in order. -/
theorem Heard.listen_prefix {rest arriving : List Frame} (h : Heard x last b r)
    (hdelivers : Delivers last rest arriving) (hn : Numbered b.localAddress b.nr rest) :
    x.1 ++ listen arriving (b, r) <+: (rest.foldl taken x).1 := by
  induction hdelivers generalizing x b r with
  | done last rest =>
    rw [listen, List.append_nil]
    exact taken_prefix x rest
  | @again f rest arriving _ ih =>
    obtain ⟨hdest, n, nr, pf, hc, hlt, hnr⟩ := h.repeats f rfl
    have hrepeat : n = (b.nr + 7) % 8 := by
      rw [hnr, (sequence_lost hlt (Nat.zero_le _)).1]
    rw [listen, Connection.handle_repeat hdest hc h.connected hrepeat]
    exact ih h hn
  | @next last lost f rest arriving hlost _ ih =>
    obtain ⟨-, hdest, ⟨nr, pf, hc⟩, hrest⟩ := numbered_append.mp hn
    by_cases hnone : lost = []
    · subst hnone
      by_cases haccepts : r.Accepts b.nr f.information
      · obtain ⟨event, r', hrun, hheard, hunits⟩ := h.takes hdest hc haccepts
        have hih := ih hheard hrest
        rw [hunits, List.append_assoc] at hih
        rw [List.nil_append, List.foldl_cons, listen, hrun]
        cases event <;> exact hih
      · obtain ⟨e, hrun, -⟩ := Connection.handle_refuses hdest hc h.connected rfl haccepts
        rw [listen, hrun, List.append_nil]
        exact taken_prefix x _
    · have hpos := List.length_pos_iff.mpr hnone
      obtain ⟨hrepeat, hns⟩ := (sequence_lost h.below hlost).2 hpos
      rw [listen, Connection.handle_gap hdest hc h.connected hrepeat hns, List.append_nil]
      exact taken_prefix x _

/-- Whatever is repeated or lost, the units that are completed are the first of those that were sent. -/
theorem listen_sent {a₀ a b : Connection} {s : Segmenter} {units : List Bytes} {frames arriving : List Frame}
    (hlinked : Linked a₀ b) (hready : Ready r) (hsent : Sent a₀ units frames a s)
    (hdelivers : Delivers none frames arriving) : listen arriving (b, r) <+: units := by
  obtain ⟨hnumbered, -⟩ := hsent.numbered hlinked.below
  rw [hlinked.number, hlinked.address] at hnumbered
  have hheard : Heard ([], []) none b r := by
    refine ⟨hlinked.receives, ?_, hready.gathered, hready.imp_right fun hnone => .inl hnone.2, nofun⟩
    rw [← hlinked.number]
    exact hlinked.below
  refine (hheard.listen_prefix hdelivers hnumbered).trans ?_
  obtain ⟨past, hunits, hgather⟩ := hsent.gathers
  rw [hgather]
  split
  · exact List.prefix_rfl
  · rw [hunits]
    exact List.prefix_append _ _

end Receiver

/-! ## What a number says -/

/-- A station, and the number of the last information frame that it accepted since its link came up. -/
structure Listener where
  station : Station
  accepted : Option UInt8

namespace Listener

/-- The number of the last frame accepted, behind a frame that moved the count from `nr` to `nr'`. -/
def counted (last : Option UInt8) (nr nr' : UInt8) (frame : Frame) : Result Event → Option UInt8
  | .error _ => last
  | .ok event =>
    match frame.control with
    | .i ns _ _ => if nr' = nr then last else some ns
    | .snrm => if event = .acknowledgeRequired then none else last
    | .ua => if event = .connected then none else last
    | _ => last

/-- Nothing has happened yet. -/
def new (role : Role) (localAddress peer : Address) (proposed : Parameters) (buf : Bytes) : Listener :=
  ⟨.new role localAddress peer proposed buf, none⟩

def step (x : Listener) (a : Act) : Listener where
  station := x.station.step a
  accepted :=
    match a with
    | .handle frame => counted x.accepted x.station.connection.nr (x.station.step a).connection.nr frame
        (Connection.handle frame (x.station.connection, x.station.into)).1
    | _ => x.accepted

/-- An information frame over a link that is up is named exactly where its number is neither the one that
is expected nor that of the last frame accepted. -/
def Named (x : Listener) : Act → Prop
  | .handle frame => ∀ ns nr pf, frame.control = .i ns nr pf →
      frame.destination = x.station.connection.localAddress → x.station.connection.state = .connected →
      ((∃ e, (Connection.handle frame (x.station.connection, x.station.into)).1 = .error e ∧
        e.kind = .unexpectedMessage) ↔ ns ≠ x.station.connection.nr ∧ x.accepted ≠ some ns)
  | _ => True

/-- The number before the one that is expected, and not that of the last frame accepted; that of the last
frame accepted, and not the one before; or the one that is expected, where the reassembler expects
another. -/
def Misread (x : Listener) : Act → Prop
  | .handle frame => ∃ ns nr pf, frame.control = .i ns nr pf ∧
      frame.destination = x.station.connection.localAddress ∧ x.station.connection.state = .connected ∧
      (ns = (x.station.connection.nr + 7) % 8 ∧ x.accepted ≠ some ns ∨
        ns ≠ (x.station.connection.nr + 7) % 8 ∧ ns ≠ x.station.connection.nr ∧ x.accepted = some ns ∨
        ns = x.station.connection.nr ∧ ¬ x.station.into.Expects ns)
  | _ => False

theorem named_frame (x : Listener) (frame : Frame) :
    x.Named (.handle frame) ↔ ¬ x.Misread (.handle frame) := by
  obtain ⟨⟨c, r, segmenter⟩, accepted⟩ := x
  constructor
  · rintro h ⟨ns, nr, pf, hc, hdest, hconnected, hcase⟩
    have hnamed := h ns nr pf hc hdest hconnected
    obtain ⟨hrepeat, haccepted⟩ | ⟨hrepeat, hns, haccepted⟩ | ⟨hns, hexpects⟩ := hcase
    · have hne : ns ≠ c.nr := fun hns => (sequence_ne c.nr).2 (hns.symm.trans hrepeat)
      obtain ⟨e, he, -⟩ := hnamed.mpr ⟨hne, haccepted⟩
      dsimp only at he
      rw [Connection.handle_repeat hdest hc hconnected hrepeat] at he
      cases he
    · refine (hnamed.mp ⟨⟨.unexpectedMessage, 0⟩, ?_, rfl⟩).2 haccepted
      dsimp only
      rw [Connection.handle_gap hdest hc hconnected hrepeat hns]
    · have hrefuses : ¬ r.Accepts ns frame.information := fun haccepts => hexpects haccepts.number
      obtain ⟨e, hrun, hkind⟩ := Connection.handle_refuses hdest hc hconnected hns hrefuses
      refine (hnamed.mp ⟨e, ?_, hkind.mpr hexpects⟩).1 hns
      dsimp only
      rw [hrun]
  · intro h ns nr pf hc hdest hconnected
    have hcase := fun hcase => h ⟨ns, nr, pf, hc, hdest, hconnected, hcase⟩
    dsimp only at hdest hconnected hcase ⊢
    by_cases hrepeat : ns = (c.nr + 7) % 8
    · rw [Connection.handle_repeat hdest hc hconnected hrepeat]
      refine ⟨fun ⟨e, he, _⟩ => (nomatch he), fun ⟨_, haccepted⟩ => absurd (.inl ⟨hrepeat, haccepted⟩) hcase⟩
    by_cases hns : ns = c.nr
    · refine ⟨fun ⟨e, he, hkind⟩ => ?_, fun ⟨hne, _⟩ => absurd hns hne⟩
      by_cases haccepts : r.Accepts ns frame.information
      · obtain ⟨hroom, hrun⟩ := Connection.handle_accepts hdest hc hconnected hns haccepts
        rw [hrun] at he
        cases he
      · obtain ⟨e', hrun, hkind'⟩ := Connection.handle_refuses hdest hc hconnected hns haccepts
        rw [hrun] at he
        obtain rfl := Except.error.inj he
        exact absurd (.inr (.inr ⟨hns, hkind'.mp hkind⟩)) hcase
    · rw [Connection.handle_gap hdest hc hconnected hrepeat hns]
      refine ⟨fun _ => ⟨hns, fun haccepted => hcase (.inr (.inl ⟨hrepeat, hns, haccepted⟩))⟩, fun _ => ?_⟩
      exact ⟨_, rfl, rfl⟩

theorem named_iff (x : Listener) (a : Act) : x.Named a ↔ ¬ x.Misread a := by
  cases a with
  | handle frame => exact x.named_frame frame
  | _ => exact ⟨fun _ => id, fun _ => trivial⟩

/-- A frame that counts and is not kept. -/
def Refused (x : Listener) : Act → Prop
  | .handle frame => ∃ ns nr pf,
      x.station.connection.Miscounts x.station.into frame ns nr pf
  | _ => False

/-- A frame numbered seven before any is accepted. -/
def Early (x : Listener) : Act → Prop
  | .handle frame => x.accepted = none ∧ ∃ nr pf, frame.control = .i 7 nr pf ∧
      frame.destination = x.station.connection.localAddress ∧ x.station.connection.state = .connected
  | _ => False

/-- Where the link is up, the count is behind the last frame accepted, and the reassembler agrees. -/
structure Counts (x : Listener) : Prop where
  number : (x.accepted = none ∧ x.station.connection.nr = 0) ∨
    ∃ n, x.accepted = some n ∧ n < 8 ∧ x.station.connection.nr = succ8 n
  expects : x.station.into.Expects x.station.connection.nr

/-- Where each frame that counts was kept, seven before any frame is the one number that is misread. -/
theorem Counts.misread_iff {x : Listener} (h : x.station.connection.state = .connected → Counts x)
    (a : Act) : x.Misread a ↔ x.Early a := by
  obtain ⟨⟨c, r, segmenter⟩, accepted⟩ := x
  cases a with
  | handle frame =>
    constructor
    · rintro ⟨ns, nr, pf, hc, hdest, hconnected, hcase⟩
      obtain ⟨hnumber, hexpects⟩ := h hconnected
      dsimp only at hnumber hexpects hcase
      obtain ⟨hnone, hzero⟩ | ⟨n, hsome, hlt, hnr⟩ := hnumber
      · obtain ⟨hrepeat, -⟩ | ⟨-, -, haccepted⟩ | ⟨hns, hrefuses⟩ := hcase
        · rw [hzero] at hrepeat
          obtain rfl : ns = 7 := hrepeat
          exact ⟨hnone, nr, pf, hc, hdest, hconnected⟩
        · rw [hnone] at haccepted
          cases haccepted
        · exact absurd (hns ▸ hexpects) hrefuses
      · have hbefore : (c.nr + 7) % 8 = n := by rw [hnr, (sequence_lost hlt (Nat.zero_le _)).1]
        obtain ⟨hrepeat, haccepted⟩ | ⟨hrepeat, -, haccepted⟩ | ⟨hns, hrefuses⟩ := hcase
        · exact absurd (hsome.trans (by rw [hrepeat, hbefore])) haccepted
        · rw [hsome] at haccepted
          exact absurd ((Option.some.inj haccepted).symm.trans hbefore.symm) hrepeat
        · exact absurd (hns ▸ hexpects) hrefuses
    · rintro ⟨hnone, nr, pf, hc, hdest, hconnected⟩
      obtain ⟨⟨-, hzero⟩ | ⟨n, hsome, -, -⟩, -⟩ := h hconnected
      · refine ⟨7, nr, pf, hc, hdest, hconnected, .inl ⟨?_, ?_⟩⟩
        · dsimp only at hzero ⊢
          rw [hzero]
          rfl
        · dsimp only at hnone ⊢
          rw [hnone]
          nofun
      · dsimp only at hnone hsome
        rw [hnone] at hsome
        cases hsome
  | _ => exact Iff.rfl

/-- A step that handles no frame does not bring the link up, and leaves the count. -/
theorem own_step {s : Station} {a : Act} (hframe : ∀ frame, a ≠ .handle frame)
    (hup : (s.step a).connection.state = .connected) : s.connection.state = .connected ∧
      (s.step a).connection.nr = s.connection.nr ∧
      ((s.step a).into = s.into ∨ (s.step a).into = s.into.reset) := by
  obtain ⟨hmoved, hinto⟩ := s.step_moved hframe
  refine ⟨?_, ?_, hinto⟩
  all_goals
    generalize (s.step a).connection = c' at hmoved hup
    cases hmoved with
    | same | acknowledged | sent => first | exact hup | rfl
    | connecting | disconnecting | reset => cases hup

theorem step_frame {x : Listener} {frame : Frame} {result : Result Event} {c : Connection} {r : Reassembler}
    (h : Connection.handle frame (x.station.connection, x.station.into) = (result, (c, r))) :
    x.step (.handle frame) = ⟨⟨c, r, x.station.segmenter⟩,
      counted x.accepted x.station.connection.nr c.nr frame result⟩ := by
  unfold step Station.step Run.attempt Station.act
  dsimp only
  rw [h]

/-- A frame that changes nothing. -/
theorem step_same {x : Listener} {frame : Frame} {result : Result Event}
    (h : Connection.handle frame (x.station.connection, x.station.into) =
      (result, (x.station.connection, x.station.into)))
    (hevent : ∀ event, result = .ok event → event ≠ .acknowledgeRequired ∧ event ≠ .connected) :
    x.step (.handle frame) = x := by
  rw [step_frame h]
  obtain ⟨⟨c, r, segmenter⟩, accepted⟩ := x
  cases result with
  | error e => rfl
  | ok event =>
    obtain ⟨hack, hconnected⟩ := hevent event rfl
    unfold counted
    cases frame.control <;> simp [hack, hconnected]

/-- A link that has just come up. -/
theorem counts_opened (c : Connection) (p : Parameters) (ack : Option Control) (r : Reassembler)
    (segmenter : Option Segmenter) :
    Counts ⟨⟨{ c.opened p with acknowledging := ack }, r.reset, segmenter⟩, none⟩ :=
  ⟨.inl ⟨rfl, rfl⟩, .inr (.inl rfl)⟩

theorem Counts.below {x : Listener} (h : Counts x) : x.station.connection.nr < 8 := by
  obtain ⟨-, hzero⟩ | ⟨n, -, -, hnr⟩ := h.number
  · rw [hzero]
    decide
  · rw [hnr]
    exact succ8_lt n

/-- The frame that is expected, and kept. -/
theorem Counts.next {x : Listener} (h : Counts x) {frame : Frame} {ns nr : UInt8} {pf : Bool}
    (hdest : frame.destination = x.station.connection.localAddress) (hc : frame.control = .i ns nr pf)
    (hconnected : x.station.connection.state = .connected) (hns : ns = x.station.connection.nr)
    (haccepts : x.station.into.Accepts ns frame.information) : Counts (x.step (.handle frame)) := by
  obtain ⟨hroom, hrun⟩ := Connection.handle_accepts hdest hc hconnected hns haccepts
  have hmoved : succ8 x.station.connection.nr ≠ x.station.connection.nr := (sequence_ne _).1
  rw [step_frame hrun]
  refine ⟨.inr ⟨ns, ?_, ?_, ?_⟩, .inr (.inr ?_)⟩
  · unfold counted
    simp [hc, hmoved]
  · rw [hns]
    exact h.below
  · rw [hns]
  · rw [← hns]
    rfl

theorem counts_frame {x : Listener} {frame : Frame} (h : x.station.connection.state = .connected → Counts x)
    (hkept : ¬ x.Refused (.handle frame))
    (hup : (x.step (.handle frame)).station.connection.state = .connected) :
    Counts (x.step (.handle frame)) := by
  have hsame : ∀ {result : Result Event},
      Connection.handle frame (x.station.connection, x.station.into) =
        (result, (x.station.connection, x.station.into)) →
      (∀ event, result = .ok event → event ≠ .acknowledgeRequired ∧ event ≠ .connected) →
      Counts (x.step (.handle frame)) := by
    intro result hrun hevent
    rw [step_same hrun hevent] at hup ⊢
    exact h hup
  have herror : ∀ {e : Error}, ∀ event, (.error e : Result Event) = .ok event →
      event ≠ .acknowledgeRequired ∧ event ≠ .connected := nofun
  have hidle : ∀ event, (.ok .idle : Result Event) = .ok event →
      event ≠ .acknowledgeRequired ∧ event ≠ .connected := by
    rintro event hevent
    obtain rfl := Except.ok.inj hevent
    decide
  by_cases hdest : frame.destination = x.station.connection.localAddress
  · have hrun := Connection.handle_run (r := x.station.into) hdest
    cases hc : frame.control with
    | snrm =>
      rw [hc] at hrun
      dsimp only at hrun
      by_cases hrole : x.station.connection.role = .server
      · match hinfo : Parameters.decode frame.information with
        | .error e =>
          rw [if_neg (not_not_intro hrole), hinfo] at hrun
          exact hsame hrun herror
        | .ok p =>
          have hnone : ∀ nr', counted x.accepted x.station.connection.nr nr' frame
              (.ok .acknowledgeRequired) = none := by
            intro nr'
            simp [counted, hc]
          rw [step_frame (Connection.handle_snrm hdest hc hrole hinfo), hnone]
          exact counts_opened ..
      · rw [if_pos hrole] at hrun
        exact hsame hrun herror
    | ua =>
      rw [hc] at hrun
      dsimp only at hrun
      by_cases hstate : x.station.connection.state = .connecting
      · match hinfo : Parameters.decode frame.information with
        | .error e =>
          rw [if_pos hstate, hinfo] at hrun
          exact hsame hrun herror
        | .ok p =>
          have hnone : ∀ nr', counted x.accepted x.station.connection.nr nr' frame
              (.ok .connected) = none := by
            intro nr'
            simp [counted, hc]
          rw [step_frame (Connection.handle_ua hdest hc hstate hinfo), hnone]
          exact counts_opened _ p x.station.connection.acknowledging _ _
      · rw [if_neg hstate] at hrun
        rw [step_frame hrun] at hup
        cases hup
    | disc | dm | frmr =>
      rw [hc] at hrun
      rw [step_frame hrun] at hup
      cases hup
    | i ns nr pf =>
      by_cases hstate : x.station.connection.state = .connected
      · by_cases hrepeat : ns = (x.station.connection.nr + 7) % 8
        · exact hsame (Connection.handle_repeat hdest hc hstate hrepeat) hidle
        by_cases hns : ns = x.station.connection.nr
        · by_cases haccepts : x.station.into.Accepts ns frame.information
          · exact (h hstate).next hdest hc hstate hns haccepts
          · exact absurd ⟨ns, nr, pf, hc, hdest, hstate, hns, haccepts⟩ hkept
        · exact hsame (Connection.handle_gap hdest hc hstate hrepeat hns) herror
      · rw [hc] at hrun
        dsimp only at hrun
        rw [if_pos hstate] at hrun
        exact hsame hrun herror
    | rr _ _ | rnr _ _ | ui =>
      rw [hc] at hrun
      exact hsame hrun hidle
  · exact hsame (Connection.handle_other hdest) hidle

/-- The count stays behind the last frame accepted, where what counts is kept. -/
theorem counts_step (x : Listener) (a : Act) (h : x.station.connection.state = .connected → Counts x)
    (hkept : ¬ x.Refused a) : (x.step a).station.connection.state = .connected → Counts (x.step a) := by
  intro hup
  by_cases hframe : ∃ frame, a = .handle frame
  · obtain ⟨frame, rfl⟩ := hframe
    exact counts_frame h hkept hup
  · have hnone : ∀ frame, a ≠ .handle frame := not_exists.mp hframe
    obtain ⟨hstate, hnr, hinto⟩ := own_step hnone hup
    obtain ⟨hnumber, hexpects⟩ := h hstate
    have hsame : (x.step a).accepted = x.accepted := by
      cases a with
      | handle frame => exact absurd rfl (hnone frame)
      | _ => rfl
    refine ⟨?_, ?_⟩
    · rw [hsame]
      change _ ∧ (x.station.step a).connection.nr = 0 ∨ ∃ n, _ ∧ _ ∧ (x.station.step a).connection.nr = _
      rw [hnr]
      exact hnumber
    · change (x.station.step a).into.Expects (x.station.step a).connection.nr
      rw [hnr]
      obtain hinto | hinto := hinto
      · rw [hinto]
        exact hexpects
      · rw [hinto]
        exact .inr (.inl rfl)

/-- Whatever is repeated or lost, the units that are completed before the first error are the first of those
that were sent. In every run the frames that are named are those that the numbers say exactly where none is
misread, and where each frame that counts was kept, exactly where none is numbered seven before any frame
was accepted. -/
theorem repeats_and_gaps {a₀ a b : Connection} {r : Reassembler} {s : Segmenter} {units : List Bytes}
    {frames arriving : List Frame} (hlinked : Linked a₀ b) (hready : Ready r)
    (hsent : Sent a₀ units frames a s) (hdelivers : Delivers none frames arriving) :
    listen arriving (b, r) <+: units ∧
      (∀ x acts, Run.Meeting step Named x acts ↔ Run.Meeting step (fun x a => ¬ Misread x a) x acts) ∧
      ∀ role localAddress peer proposed buf acts,
        Run.Meeting step (fun x a => ¬ Refused x a) (new role localAddress peer proposed buf) acts →
          (Run.Meeting step Named (new role localAddress peer proposed buf) acts ↔
            Run.Meeting step (fun x a => ¬ Early x a) (new role localAddress peer proposed buf) acts) := by
  refine ⟨listen_sent hlinked hready hsent hdelivers, fun x acts => ?_,
    fun role localAddress peer proposed buf acts hkept => ?_⟩
  · exact forall₃_congr fun past a _ => named_iff _ a
  · refine forall₃_congr fun past a hp => (named_iff _ a).trans (not_congr ?_)
    have hcounts : (Run.after step (new role localAddress peer proposed buf) past).station.connection.state =
        .connected → Counts (Run.after step (new role localAddress peer proposed buf) past) :=
      Run.Meeting.invariant (fun x a h hkept => counts_step x a h hkept) (fun hup => by cases hup)
        (hkept.of_prefix ((List.prefix_append _ _).trans hp))
    exact Counts.misread_iff hcounts a

/-- A unit of three bytes in frames of two. -/
def sampleSegmenter : Segmenter := ⟨[1, 2, 3], 0, 2, by decide, by decide⟩

/-- The frames of the unit, as the client of the sample link sends them. -/
def sampleFirst : Frame :=
  let a := (Link.sampleLink 2 3).client.1
  (sampleSegmenter.frame a.peer a.localAddress a.ns a.nr).wire

def sampleSecond : Frame :=
  let a := (Link.sampleLink 2 3).client.1
  (sampleSegmenter.advance.frame a.peer a.localAddress (succ8 a.ns) a.nr).wire

theorem repeats_and_gaps_sample : listen [sampleFirst, sampleFirst, sampleSecond]
    (Link.sampleLink 2 3).server <+: [[1, 2, 3]] := by
  have hlinked := (Link.sample_opens 2 3).linked .client
  have hsent : Sent (Link.sampleLink 2 3).client.1 [[1, 2, 3]] [sampleFirst, sampleSecond] _ _ :=
    .next (.next (.start (by simp) (show _ = Except.ok sampleSegmenter from rfl)) rfl rfl (by decide)) rfl rfl
      (by decide)
  have hdelivers : Delivers none [sampleFirst, sampleSecond] [sampleFirst, sampleFirst, sampleSecond] :=
    .next [] (by simp) (.again (.next [] (by simp) (.done _ _)))
  exact (repeats_and_gaps hlinked.1 hlinked.2 hsent hdelivers).1

/-- A frame numbered seven. -/
def sampleSeven : Frame := { Station.sampleInformation with control := .i 7 0 true }

/-- Over a link that has just come up a frame numbered seven passes for a repeat. -/
theorem seven_unnamed :
    (Station.act (.handle sampleSeven) (Station.sampleServer.step (.handle Station.sampleSnrm))).1 =
      .ok (.event .idle) ∧
    ¬ Run.Meeting step Named ⟨Station.sampleServer, none⟩
      [.handle Station.sampleSnrm, .handle sampleSeven] := by
  refine ⟨by decide +kernel, fun h => ?_⟩
  have hnamed := (named_iff _ _).mp (h [.handle Station.sampleSnrm] (.handle sampleSeven) (by simp))
  exact hnamed ⟨7, 0, true, rfl, by decide +kernel, by decide +kernel,
    .inl ⟨by decide +kernel, by decide +kernel⟩⟩

end Listener

end Dlms.Hdlc
