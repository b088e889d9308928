import DlmsCosem.Transport.Decoding

/-!
# Segments

A `Segmenter` splits a service data unit across as many information frames as it takes, a `Reassembler`
puts it together again. A frame is sent or stored whole or not at all, so a failed step leaves both as
they were, but for a unit that was complete: it is given up before the next frame is looked at.
-/

namespace Dlms.Hdlc

/-- The number after `n`, modulo eight. -/
def succ8 (n : UInt8) : UInt8 := (n + 1) % 8

/-- A number is neither the one after it nor the one before it. -/
theorem sequence_ne (n : UInt8) : succ8 n ≠ n ∧ n ≠ (n + 7) % 8 := by
  have hall : ∀ m : Fin 256, succ8 (UInt8.ofNat m) ≠ UInt8.ofNat m ∧
      UInt8.ofNat m ≠ (UInt8.ofNat m + 7) % 8 := by decide +kernel
  have hn := hall ⟨n.toNat, n.toNat_lt⟩
  rwa [UInt8.ofNat_toNat] at hn

theorem succ8_lt (n : UInt8) : succ8 n < 8 :=
  UInt8.lt_iff_toNat_lt.mpr (by rw [succ8, UInt8.toNat_mod]; exact Nat.mod_lt _ (by decide))

/-- A unit, how much of it is sent, and how much a frame takes. -/
structure Segmenter where
  lsdu : Bytes
  sent : Nat
  maxInfo : Nat
  sent_le : sent ≤ lsdu.length
  maxInfo_pos : 0 < maxInfo

namespace Segmenter

def new (lsdu : Bytes) (maxInfo : UInt16) : Result Segmenter :=
  if h : maxInfo = 0 then .error ⟨.invalidLength, 0⟩
  else .ok ⟨lsdu, 0, maxInfo.toNat, lsdu.start_le,
    Nat.pos_of_ne_zero fun hz => h (UInt16.toNat_inj.mp hz)⟩

def isDone (s : Segmenter) : Bool := s.lsdu.length ≤ s.sent

/-- Where the next segment ends. -/
def stop (s : Segmenter) : Nat := min (s.sent + s.maxInfo) s.lsdu.length

/-- The next frame. -/
def frame (s : Segmenter) (destination source : Address) (ns nr : UInt8) : Frame :=
  let segmented := decide (s.stop < s.lsdu.length)
  { segmented, destination, source
    -- The poll/final bit closes the transmission.
    control := .i ns nr !segmented
    information := slice s.lsdu s.sent s.stop }

/-- Go on behind the segment. -/
def advance (s : Segmenter) : Segmenter :=
  { s with sent := s.stop, sent_le := Nat.min_le_right _ _ }

/-- `next_frame`: the frame that was written to `out`. -/
def nextFrame (destination source : Address) (ns nr : UInt8) (out : Bytes) :
    Prog Error Segmenter (Option Bytes) := do
  if ← Prog.gets isDone then return none
  else
    let frame ← Prog.gets fun s => s.frame destination source ns nr
    let bytes ← Prog.ofExcept (SliceWriter.encodeInto frame.encode out)
    Prog.modify advance
    return some bytes

variable {s : Segmenter}

theorem nextFrame_done {destination source : Address} {ns nr : UInt8} {out : Bytes} (h : s.isDone = true) :
    nextFrame destination source ns nr out s = (.ok none, s) := by
  unfold nextFrame
  rw [Prog.gets_bind_run]
  exact congrFun (if_pos h) s

theorem nextFrame_run {destination source : Address} {ns nr : UInt8} {out : Bytes} (h : s.isDone = false) :
    nextFrame destination source ns nr out s =
      match SliceWriter.encodeInto (s.frame destination source ns nr).encode out with
      | .ok bytes => (.ok (some bytes), s.advance)
      | .error e => (.error e, s) := by
  unfold nextFrame
  rw [Prog.gets_bind_run]
  simp only [h, Bool.false_eq_true, if_false]
  rw [Prog.gets_bind_run]
  cases SliceWriter.encodeInto (s.frame destination source ns nr).encode out <;> rfl

theorem sent_lt (h : s.isDone = false) : s.sent < s.lsdu.length := by
  simpa [isDone] using h

/-- Each segment takes a byte at least. -/
theorem sent_lt_stop (h : s.isDone = false) : s.sent < s.stop := by
  have hlt := sent_lt h
  have hpos := s.maxInfo_pos
  unfold stop
  omega

theorem length_segment (destination source : Address) (ns nr : UInt8) :
    (s.frame destination source ns nr).information.length = min s.maxInfo (s.lsdu.length - s.sent) := by
  change (slice s.lsdu s.sent s.stop).length = _
  rw [slice, List.length_drop, List.length_take]
  have := s.sent_le
  unfold stop
  omega

/-- What is sent of the unit grows by the segment. -/
theorem take_segment (destination source : Address) (ns nr : UInt8) :
    s.lsdu.take s.sent ++ (s.frame destination source ns nr).information = s.lsdu.take s.stop := by
  have hle : s.sent ≤ s.stop := by
    have := s.sent_le
    unfold stop
    omega
  change slice s.lsdu 0 s.sent ++ slice s.lsdu s.sent s.stop = slice s.lsdu 0 s.stop
  exact slice_append_slice s.lsdu (Nat.zero_le s.sent) hle

end Segmenter

/-- The segments of a unit, gathered in the caller's buffer. -/
@[ext]
structure Reassembler where
  buf : Bytes
  len : Nat
  /-- The number that the next segment must carry, once one has arrived. -/
  expectNs : Option UInt8
  complete : Bool
  len_le : len ≤ buf.length

instance : DecidableEq Reassembler := fun _ _ => decidable_of_iff _ Reassembler.ext_iff.symm

namespace Reassembler

def new (buf : Bytes) : Reassembler := ⟨buf, 0, none, false, buf.start_le⟩

def reset (r : Reassembler) : Reassembler :=
  { r with len := 0, expectNs := none, complete := false, len_le := Nat.zero_le _ }

/-- The reassembled unit, once it is complete. -/
def lsdu (r : Reassembler) : Bytes := if r.complete then r.buf.take r.len else []

/-- The bytes that have arrived. -/
def gathered (r : Reassembler) : Bytes := r.buf.take r.len

/-- A unit that is complete makes room. -/
def cleared (r : Reassembler) : Reassembler := if r.complete then r.reset else r

/-- The reassembler with a segment stored behind the others. -/
def stored (r : Reassembler) (ns : UInt8) (frame : Frame)
    (h : r.len + frame.information.length ≤ r.buf.length) : Reassembler where
  buf := SliceWriter.splice r.buf r.len frame.information
  len := r.len + frame.information.length
  expectNs := some (succ8 ns)
  complete := !frame.segmented
  len_le := by rw [SliceWriter.length_splice h]; exact h

/-- Store a segment that carries the number that is expected. -/
def store (ns : UInt8) (frame : Frame) : Prog Error Reassembler Bool := fun r =>
  if r.expectNs.any (ns != ·) then (.error ⟨.unexpectedMessage, r.len⟩, r)
  else
    let stop := r.len + frame.information.length
    if h : stop ≤ r.buf.length then (.ok !frame.segmented, r.stored ns frame h)
    else (.error ⟨.bufferTooSmall (stop - r.buf.length), r.len⟩, r)

/-- `push`: true when a unit is complete. -/
def push (frame : Frame) : Prog Error Reassembler Bool :=
  match frame.control with
  | .i ns _ _ => do
    Prog.modify cleared
    store ns frame
  | _ => pure false

/-- A segment with this number may follow. -/
def Expects (r : Reassembler) (ns : UInt8) : Prop :=
  r.complete = true ∨ r.expectNs = none ∨ r.expectNs = some ns

/-- There is room for a segment, and it carries the number that is expected, if any is. -/
structure Accepts (r : Reassembler) (ns : UInt8) (information : Bytes) : Prop where
  number : r.Expects ns
  room : r.cleared.len + information.length ≤ r.buf.length

@[simp] theorem cleared_buf (r : Reassembler) : r.cleared.buf = r.buf := by
  unfold cleared
  split <;> rfl

theorem cleared_incomplete {r : Reassembler} (h : r.complete = false) : r.cleared = r :=
  if_neg (by rw [h]; decide)

theorem cleared_complete {r : Reassembler} (h : r.complete = true) : r.cleared = r.reset := if_pos h

variable {r : Reassembler} {frame : Frame} {ns nr : UInt8} {pf : Bool}

/-- The number is compared with the one that is expected. -/
theorem cleared_expects : r.cleared.expectNs.any (ns != ·) = false ↔ r.Expects ns := by
  unfold Expects
  cases hcomplete : r.complete with
  | true =>
    rw [cleared_complete hcomplete]
    simp [reset]
  | false =>
    rw [cleared_incomplete hcomplete]
    cases r.expectNs with
    | none => simp
    | some e =>
      by_cases he : e = ns
      · simp [he]
      · simp [he, Ne.symm he]

theorem push_run (hc : frame.control = .i ns nr pf) : push frame r = store ns frame r.cleared := by
  unfold push
  rw [hc]
  rfl

/-- A segment that is accepted is stored. -/
theorem push_accepts (hc : frame.control = .i ns nr pf) (h : r.Accepts ns frame.information) :
    ∃ hroom, push frame r = (.ok !frame.segmented, r.cleared.stored ns frame hroom) := by
  have hroom : r.cleared.len + frame.information.length ≤ r.cleared.buf.length := by
    rw [cleared_buf]
    exact h.room
  refine ⟨hroom, ?_⟩
  rw [push_run hc, store, if_neg (by rw [cleared_expects.mpr h.number]; decide)]
  exact dif_pos hroom

/-- A segment that is refused leaves what is held, but for a unit that was complete. The error tells a
wrong number from a lack of room. -/
theorem push_refuses (hc : frame.control = .i ns nr pf) (h : ¬ r.Accepts ns frame.information) :
    ∃ e, push frame r = (.error e, r.cleared) ∧ (e.kind = .unexpectedMessage ↔ ¬ r.Expects ns) := by
  rw [push_run hc, store]
  cases hnumber : r.cleared.expectNs.any (ns != ·) with
  | true =>
    have hexpects : ¬ r.Expects ns := by
      rw [← cleared_expects, hnumber]
      decide
    exact ⟨_, rfl, by simp [hexpects]⟩
  | false =>
    have hexpects := cleared_expects.mp hnumber
    have hfull : ¬ r.cleared.len + frame.information.length ≤ r.cleared.buf.length := by
      rw [cleared_buf]
      exact fun hroom => h ⟨hexpects, hroom⟩
    rw [if_neg (by decide)]
    exact ⟨_, dif_neg hfull, by simp [hexpects]⟩

theorem length_gathered (r : Reassembler) : r.gathered.length = r.len := by
  rw [gathered, List.length_take, Nat.min_eq_left r.len_le]

theorem gathered_stored (h : r.len + frame.information.length ≤ r.buf.length) :
    (r.stored ns frame h).gathered = r.gathered ++ frame.information :=
  SliceWriter.splice_take h

theorem length_stored (h : r.len + frame.information.length ≤ r.buf.length) :
    (r.stored ns frame h).buf.length = r.buf.length := SliceWriter.length_splice h

theorem lsdu_complete (h : r.complete = true) : r.lsdu = r.gathered := if_pos h

end Reassembler

end Dlms.Hdlc
