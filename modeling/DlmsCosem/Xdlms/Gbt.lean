import DlmsCosem.Axdr.RoundTrip
import DlmsCosem.Lib.Run
import DlmsCosem.Xdlms.Apdu
import Mathlib.Algebra.Order.Floor.Div

/-!
# General block transfer

A `GbtSender` cuts an APDU into numbered blocks and takes acknowledgements back; a `GbtReceiver` puts
them together again in a buffer of fixed size. Lengths and places (`usize`) are natural numbers: no
place of a fragment is past the end of the APDU, so nothing saturates.

`GbtSender.block_spec` and the lemmas of `GbtReceiver.push` say what one call does. On a link that
loses nothing both sides stay in phase (`GbtTransfer.InPhase`), and the documented loop takes every
APDU across.
-/

namespace Dlms

/-- The block control byte: last block, streaming, and a window of six bits. -/
structure BlockControl where
  val : UInt8
  deriving Repr, DecidableEq

namespace BlockControl

/-- A control byte. -/
def new (lastBlock streaming : Bool) (window : UInt8) : BlockControl :=
  let v := window &&& 0x3F
  let v := if lastBlock then v ||| 0x80 else v
  let v := if streaming then v ||| 0x40 else v
  ⟨v⟩

/-- No further block follows. -/
def lastBlock (c : BlockControl) : Bool := c.val &&& 0x80 != 0

/-- The sender sends a whole window without waiting. -/
def streaming (c : BlockControl) : Bool := c.val &&& 0x40 != 0

/-- How many blocks are sent before an acknowledgement is expected. -/
def window (c : BlockControl) : UInt8 := c.val &&& 0x3F

theorem new_fields (lastBlock streaming : Bool) (window : UInt8) :
    (new lastBlock streaming window).lastBlock = lastBlock ∧
      (new lastBlock streaming window).streaming = streaming ∧
      (new lastBlock streaming window).window = window &&& 0x3F := by
  have hall : ∀ n : Fin 256, ∀ l s : Bool,
      (new l s (UInt8.ofNat n)).lastBlock = l ∧ (new l s (UInt8.ofNat n)).streaming = s ∧
        (new l s (UInt8.ofNat n)).window = UInt8.ofNat n &&& 0x3F := by decide +kernel
  have h := hall ⟨window.toNat, window.toNat_lt⟩ lastBlock streaming
  rwa [UInt8.ofNat_toNat] at h

end BlockControl

/-- An acknowledgement: a block without data. -/
def GeneralBlockTransfer.ack (blockNumberAck : UInt16) (window : UInt8) : GeneralBlockTransfer :=
  ⟨(BlockControl.new false false window).val, 0, blockNumberAck, []⟩

namespace GeneralBlockTransfer

/-- How many bytes a block takes. -/
theorem encode_sized (g : GeneralBlockTransfer) (h : g.blockData.length < 2 ^ 32) :
    Emit.Sized g.encode (5 + (Emit.lengthSize g.blockData.length + g.blockData.length)) :=
  (((Emit.Sized.u8 g.control).append (.u16 g.blockNumber)).append (.u16 g.blockNumberAck)).append
    (Emit.lengthPrefixed_sized h)

/-- A length of more than four bytes is refused. -/
theorem data_lt_of_encode {g : GeneralBlockTransfer} (h : g.encode.fault = none)
    (hlen : g.blockData.length < 2 ^ 64) : g.blockData.length < 2 ^ 32 := by
  obtain ⟨-, hprefixed⟩ := Emit.append_fault_eq_none.mp h
  exact Ber.writeLen_lt (Emit.append_fault_eq_none.mp hprefixed).1 hlen

/-- A block is read back from what is written of it. -/
theorem fromBytes_encode (g : GeneralBlockTransfer) (h : g.blockData.length < 2 ^ 32) :
    Read.fromBytes decode g.encode.data = .ok g := by
  have hdata : g.encode.data = (Emit.u8 g.control).data ++ ((Emit.u16 g.blockNumber).data ++
      ((Emit.u16 g.blockNumberAck).data ++ (Emit.lengthPrefixed g.blockData).data)) := by
    rw [encode, Emit.append_data rfl, Emit.append_data rfl, Emit.append_data rfl]
    simp only [List.append_assoc]
  have htakes : Takes decode g.encode.data (g = ·) := by
    rw [hdata]
    refine (Takes.byte g.control).bind fun control hcontrol => ?_
    refine (Takes.u16 g.blockNumber).bind fun number hnumber => ?_
    refine (Takes.u16 g.blockNumberAck).bind fun ack hack => ?_
    refine (Takes.lengthPrefixed h).map fun data hdata => ?_
    rw [← hcontrol, ← hnumber, ← hack, ← hdata]
  obtain ⟨a, ha, rfl⟩ := htakes.fromBytes
  exact ha

end GeneralBlockTransfer

/-- The largest window a sender uses. -/
def gbtWindowMax : UInt8 := 0x3F

/-! ## The sender -/

/-- Cuts `apdu` into blocks of `fragment` bytes. `block` is the last one emitted, `acked` the highest
acknowledged. -/
structure GbtSender where
  apdu : Bytes
  block : UInt16
  acked : UInt16
  fragment : Nat
  window : UInt8
  streaming : Bool
  fragment_pos : 0 < fragment

namespace GbtSender

/-- `new`. -/
def new (apdu : Bytes) (fragment : Nat) (window : UInt8) (streaming : Bool) : Result GbtSender :=
  if h : 0 < fragment then
    let blocks := max (apdu.length ⌈/⌉ fragment) 1
    if blocks < 2 ^ 16 then
      let window := if streaming then min (max window 1) gbtWindowMax else 1
      .ok ⟨apdu, 0, 0, fragment, window, streaming, h⟩
    else .error ⟨.invalidLength, 0⟩
  else .error ⟨.invalidLength, 0⟩

/-- How many blocks the whole APDU takes. -/
def blocks (s : GbtSender) : UInt16 :=
  let n := s.apdu.length ⌈/⌉ s.fragment
  if n = 0 then 1 else UInt16.ofNat n

/-- Every block was sent and acknowledged. -/
def isDone (s : GbtSender) : Bool := s.blocks ≤ s.acked

/-- The bytes of the block after the first `n`. -/
def fragmentAt (s : GbtSender) (n : Nat) : Bytes :=
  let start := n * s.fragment
  let stop := min (start + s.fragment) s.apdu.length
  (s.apdu.take stop).drop start

/-- The block after the first `n`. -/
def frameAt (s : GbtSender) (n : UInt16) : GeneralBlockTransfer :=
  let number := if n = 0xFFFF then n else n + 1
  ⟨(BlockControl.new (number == s.blocks) s.streaming s.window).val, number, 0, s.fragmentAt n.toNat⟩

/-- Emit the next block into `out`: its bytes, or nothing when an acknowledgement is owed first. -/
def nextBlock (out : Bytes) : Prog Error GbtSender (Option Bytes) := fun s =>
  if s.blocks ≤ s.block then (.ok none, s)
  else if s.window.toNat ≤ s.block.toNat - s.acked.toNat then (.ok none, s)
  else
    let frame := s.frameAt s.block
    match SliceWriter.encodeInto frame.encode out with
    | .error e => (.error e, s)
    | .ok bs => (.ok (some bs), { s with block := frame.blockNumber })

/-- Take an acknowledgement: go on after the block it names. -/
def acknowledge (blockNumberAck : UInt16) : Prog Error GbtSender Unit := fun s =>
  if s.block < blockNumberAck ∨ blockNumberAck < s.acked then (.error ⟨.unexpectedMessage, 0⟩, s)
  else (.ok (), { s with acked := blockNumberAck, block := blockNumberAck })

/-- How many blocks there are, as a number that does not wrap. -/
def total (s : GbtSender) : Nat := max (s.apdu.length ⌈/⌉ s.fragment) 1

/-- The sender with its two cursors elsewhere. -/
def seek (s : GbtSender) (block acked : UInt16) : GbtSender := { s with block, acked }

@[simp] theorem seek_total (s : GbtSender) (b a : UInt16) : (s.seek b a).total = s.total := rfl
@[simp] theorem seek_blocks (s : GbtSender) (b a : UInt16) : (s.seek b a).blocks = s.blocks := rfl
@[simp] theorem seek_frameAt (s : GbtSender) (b a n : UInt16) :
    (s.seek b a).frameAt n = s.frameAt n := rfl
@[simp] theorem seek_seek (s : GbtSender) (b a b' a' : UInt16) :
    (s.seek b a).seek b' a' = s.seek b' a' := rfl

/-- What `new` checks: the blocks can be numbered, and the window is the one a block can carry. -/
structure Valid (s : GbtSender) : Prop where
  total_lt : s.total < 2 ^ 16
  window_pos : 1 ≤ s.window.toNat
  window_le : s.window.toNat ≤ 63
  single : s.streaming = false → s.window = 1

theorem new_valid {apdu : Bytes} {fragment : Nat} {window : UInt8} {streaming : Bool}
    {s : GbtSender} (h : new apdu fragment window streaming = .ok s) :
    s.Valid ∧ s.apdu = apdu ∧ s.fragment = fragment ∧ s.block = 0 ∧ s.acked = 0 := by
  unfold new at h
  by_cases hpos : 0 < fragment
  · rw [dif_pos hpos] at h
    dsimp only at h
    by_cases hlt : max (apdu.length ⌈/⌉ fragment) 1 < 2 ^ 16
    · rw [if_pos hlt] at h
      obtain rfl := Except.ok.inj h
      have hall : ∀ n : Fin 256, 1 ≤ (min (max (UInt8.ofNat n) 1) gbtWindowMax).toNat ∧
          (min (max (UInt8.ofNat n) 1) gbtWindowMax).toNat ≤ 63 := by decide +kernel
      have hclamp := hall ⟨window.toNat, window.toNat_lt⟩
      rw [UInt8.ofNat_toNat] at hclamp
      cases streaming with
      | false => exact ⟨⟨hlt, Nat.le_refl 1, Nat.le_of_ble_eq_true rfl, fun _ => rfl⟩, rfl, rfl, rfl, rfl⟩
      | true =>
        exact ⟨⟨hlt, hclamp.1, hclamp.2, nofun⟩, rfl, rfl, rfl, rfl⟩
    · rw [if_neg hlt] at h
      cases h
  · rw [dif_neg hpos] at h
    cases h

section

variable {s : GbtSender}

theorem total_pos (s : GbtSender) : 0 < s.total := by
  unfold total
  omega

theorem Valid.seek (h : s.Valid) (b a : UInt16) : (s.seek b a).Valid :=
  ⟨h.total_lt, h.window_pos, h.window_le, h.single⟩

/-- The number of blocks does not wrap. -/
theorem Valid.blocks (h : s.Valid) : s.blocks.toNat = s.total := by
  have hlt := h.total_lt
  unfold GbtSender.blocks total at *
  dsimp only
  by_cases h0 : s.apdu.length ⌈/⌉ s.fragment = 0
  · rw [if_pos h0, h0]
    rfl
  · have hsize : s.apdu.length ⌈/⌉ s.fragment < UInt16.size :=
      lt_of_le_of_lt (le_max_left ..) hlt
    rw [if_neg h0, UInt16.toNat_ofNat_of_lt' hsize]
    omega

theorem Valid.not_done (h : s.Valid) (hacked : s.acked = 0) : ¬ s.isDone = true := by
  rw [isDone, decide_eq_true_iff, UInt16.le_iff_toNat_le, h.blocks, hacked, Nat.not_le]
  exact s.total_pos

/-- The blocks reach the end of the APDU. -/
theorem length_le (s : GbtSender) : s.apdu.length ≤ s.total * s.fragment := by
  rw [Nat.mul_comm, ← ceilDiv_le_iff_le_mul s.fragment_pos]
  exact le_max_left ..

/-- Only the end of the last block is past it. -/
theorem mul_lt_length {n : Nat} (h : n < s.total) (hn : 0 < n) : n * s.fragment < s.apdu.length := by
  rw [← Nat.not_le, Nat.mul_comm, ← ceilDiv_le_iff_le_mul s.fragment_pos]
  unfold total at h
  omega

/-- A block carries on where the ones before it end. -/
theorem take_fragmentAt (s : GbtSender) (n : Nat) :
    s.apdu.take (n * s.fragment) ++ s.fragmentAt n = s.apdu.take ((n + 1) * s.fragment) := by
  have hmin : s.apdu.take (min (n * s.fragment + s.fragment) s.apdu.length) =
      s.apdu.take ((n + 1) * s.fragment) := by
    rw [← List.take_take, List.take_length, Nat.succ_mul]
  have htake : (s.apdu.take ((n + 1) * s.fragment)).take (n * s.fragment) =
      s.apdu.take (n * s.fragment) := by
    rw [List.take_take, min_eq_left (Nat.mul_le_mul_right _ n.le_succ)]
  rw [fragmentAt, hmin, ← htake, List.take_append_drop]

theorem length_fragmentAt_le (s : GbtSender) (n : Nat) :
    (s.fragmentAt n).length ≤ min s.fragment s.apdu.length := by
  simp only [fragmentAt, List.length_drop, List.length_take]
  omega

theorem Valid.toNat_ofNat (h : s.Valid) {n : Nat} (hn : n ≤ s.total) :
    (UInt16.ofNat n).toNat = n :=
  UInt16.toNat_ofNat_of_lt' (Nat.lt_of_le_of_lt hn h.total_lt)

/-- The number after that of a block which is not the last does not saturate. -/
theorem Valid.succ (h : s.Valid) {n : Nat} (hn : n < s.total) :
    (if UInt16.ofNat n = 0xFFFF then UInt16.ofNat n else UInt16.ofNat n + 1) =
      UInt16.ofNat (n + 1) := by
  have hne : UInt16.ofNat n ≠ 0xFFFF := by
    intro heq
    have hnat := congrArg UInt16.toNat heq
    rw [h.toNat_ofNat hn.le] at hnat
    have hmax : (0xFFFF : UInt16).toNat = 65535 := rfl
    have := h.total_lt
    omega
  rw [if_neg hne, UInt16.ofNat_add]
  rfl

theorem Valid.frameAt (h : s.Valid) {n : Nat} (hn : n < s.total) :
    s.frameAt (UInt16.ofNat n) =
      ⟨(BlockControl.new (decide (n + 1 = s.total)) s.streaming s.window).val, UInt16.ofNat (n + 1), 0,
        s.fragmentAt n⟩ := by
  have hlast : (UInt16.ofNat (n + 1) == s.blocks) = decide (n + 1 = s.total) := by
    rw [beq_eq_decide, decide_eq_decide, ← UInt16.toNat_inj, h.blocks, h.toNat_ofNat hn]
  unfold GbtSender.frameAt
  dsimp only
  rw [h.succ hn, hlast, h.toNat_ofNat hn.le]

/-- The window that a receiver reads off a block is the sender's. -/
theorem Valid.window_read (h : s.Valid) (last : Bool) :
    let c := BlockControl.new last s.streaming s.window
    (if c.streaming then max c.window 1 else 1) = s.window := by
  obtain ⟨-, hstream, hwindow⟩ := BlockControl.new_fields last s.streaming s.window
  have hall : ∀ n : Fin 64, 1 ≤ n.val → max (UInt8.ofNat n &&& 0x3F) 1 = UInt8.ofNat n := by decide
  have hmask := hall ⟨s.window.toNat, Nat.lt_succ_of_le h.window_le⟩ h.window_pos
  rw [UInt8.ofNat_toNat] at hmask
  dsimp only
  rw [hstream, hwindow, hmask]
  by_cases hs : s.streaming = true
  · rw [if_pos hs]
  · rw [if_neg hs, h.single (Bool.not_eq_true _ ▸ hs)]

/-- The cursor of a valid sender, as a number that does not wrap. -/
theorem Valid.frameAt_block (h : s.Valid) (hn : s.block.toNat < s.total) :
    s.frameAt s.block = ⟨(BlockControl.new (decide (s.block.toNat + 1 = s.total)) s.streaming
      s.window).val, UInt16.ofNat (s.block.toNat + 1), 0, s.fragmentAt s.block.toNat⟩ := by
  have hframe := h.frameAt hn
  rwa [UInt16.ofNat_toNat] at hframe

/-- A block is emitted where there is one, the window is open and the block fits. -/
theorem Valid.nextBlock_run (h : s.Valid) {out bs : Bytes} (hn : s.block.toNat < s.total)
    (hopen : s.block.toNat - s.acked.toNat < s.window.toNat)
    (hout : SliceWriter.encodeInto (s.frameAt s.block).encode out = .ok bs) :
    nextBlock out s = (.ok (some bs), s.seek (UInt16.ofNat (s.block.toNat + 1)) s.acked) := by
  have hlt : ¬ s.blocks ≤ s.block := by
    rw [UInt16.le_iff_toNat_le, h.blocks]
    omega
  unfold nextBlock
  rw [if_neg hlt, if_neg (Nat.not_le.mpr hopen)]
  dsimp only
  rw [hout, h.frameAt_block hn]
  rfl

/-- What `nextBlock` does: nothing, or the block after the cursor. -/
theorem Valid.nextBlock_cases (h : s.Valid) (out : Bytes) :
    (∃ r, nextBlock out s = (r, s) ∧ ∀ bs, r ≠ .ok (some bs)) ∨
    (s.block.toNat < s.total ∧ (s.frameAt s.block).encode.fault = none ∧
      nextBlock out s = (.ok (some (s.frameAt s.block).encode.data),
        s.seek (UInt16.ofNat (s.block.toNat + 1)) s.acked)) := by
  by_cases hlt : s.blocks ≤ s.block
  · exact .inl ⟨.ok none, by rw [nextBlock, if_pos hlt], by simp⟩
  · by_cases hopen : s.window.toNat ≤ s.block.toNat - s.acked.toNat
    · exact .inl ⟨.ok none, by rw [nextBlock, if_neg hlt, if_pos hopen], by simp⟩
    · rw [UInt16.le_iff_toNat_le, h.blocks, Nat.not_le] at hlt
      cases hout : SliceWriter.encodeInto (s.frameAt s.block).encode out with
      | ok bs =>
        obtain ⟨hf, rfl, -⟩ := SliceWriter.encodeInto_ok hout
        exact .inr ⟨hlt, hf, h.nextBlock_run hlt (Nat.not_le.mp hopen) hout⟩
      | error e =>
        refine .inl ⟨.error e, ?_, by simp⟩
        unfold nextBlock
        rw [if_neg (by rw [UInt16.le_iff_toNat_le, h.blocks]; omega), if_neg hopen]
        dsimp only
        rw [hout]

/-- There is room in `out` for the longest block. -/
def Fits (s : GbtSender) (out : Bytes) : Prop :=
  let longest := min s.fragment s.apdu.length
  5 + (Emit.lengthSize longest + longest) ≤ out.length

instance (s : GbtSender) (out : Bytes) : Decidable (s.Fits out) :=
  inferInstanceAs (Decidable (_ ≤ _))

theorem Valid.frameAt_lt (h : s.Valid) (hsize : min s.fragment s.apdu.length < 2 ^ 32) {n : Nat}
    (hn : n < s.total) : (s.frameAt (UInt16.ofNat n)).blockData.length < 2 ^ 32 := by
  rw [h.frameAt hn]
  exact Nat.lt_of_le_of_lt (s.length_fragmentAt_le n) hsize

/-- With room for it, block `n + 1` is emitted where the window is open, and it is read back. -/
theorem Valid.emits (h : s.Valid) (hsize : min s.fragment s.apdu.length < 2 ^ 32) {out : Bytes}
    (hout : s.Fits out) {n : Nat} (hn : n < s.total) {acked : UInt16}
    (hopen : n - acked.toNat < s.window.toNat) : ∃ bs,
      nextBlock out (s.seek (UInt16.ofNat n) acked) =
        (.ok (some bs), s.seek (UInt16.ofNat (n + 1)) acked) ∧
      Read.fromBytes GeneralBlockTransfer.decode bs = .ok (s.frameAt (UInt16.ofNat n)) := by
  have hdata := h.frameAt_lt hsize hn
  have hsized := (s.frameAt (UInt16.ofNat n)).encode_sized hdata
  have hencode : SliceWriter.encodeInto (s.frameAt (UInt16.ofNat n)).encode out =
      .ok (s.frameAt (UInt16.ofNat n)).encode.data := by
    refine SliceWriter.encodeInto_fits hsized.fault (le_trans ?_ hout)
    have hlen := s.length_fragmentAt_le n
    have := Emit.lengthSize_mono hlen
    rw [hsized.size, h.frameAt hn]
    dsimp only
    omega
  have hnat : (s.seek (UInt16.ofNat n) acked).block.toNat = n := h.toNat_ofNat hn.le
  have hrun := (h.seek (UInt16.ofNat n) acked).nextBlock_run
    (by rw [hnat]; exact hn) (by rw [hnat]; exact hopen) hencode
  rw [hnat] at hrun
  exact ⟨_, hrun, GeneralBlockTransfer.fromBytes_encode _ hdata⟩

/-- Emitting moves the cursor forwards, and nothing else. -/
theorem nextBlock_forwards (out : Bytes) (s : GbtSender) :
    (nextBlock out s).2.acked = s.acked ∧ s.block ≤ (nextBlock out s).2.block := by
  have hnumber : s.block ≤ (s.frameAt s.block).blockNumber := by
    simp only [frameAt]
    split
    · exact UInt16.le_refl _
    · rename_i hne
      have hlt := s.block.toNat_lt
      rw [← UInt16.toNat_inj] at hne
      have hmax : (0xFFFF : UInt16).toNat = 65535 := rfl
      rw [UInt16.le_iff_toNat_le, UInt16.toNat_add, UInt16.toNat_one]
      omega
  unfold nextBlock
  split
  · exact ⟨rfl, UInt16.le_refl _⟩
  · split
    · exact ⟨rfl, UInt16.le_refl _⟩
    · dsimp only
      split
      · exact ⟨rfl, UInt16.le_refl _⟩
      · exact ⟨rfl, hnumber⟩

/-- An acknowledgement is taken between the last one and the last block. -/
theorem acknowledge_run {n : UInt16} (hlow : s.acked ≤ n) (hhigh : n ≤ s.block) :
    acknowledge n s = (.ok (), s.seek n n) := by
  rw [acknowledge, if_neg (by rw [not_or, UInt16.not_lt, UInt16.not_lt]; exact ⟨hhigh, hlow⟩)]
  rfl

theorem acknowledge_refused {n : UInt16} (h : ¬ (s.acked ≤ n ∧ n ≤ s.block)) :
    acknowledge n s = (.error ⟨.unexpectedMessage, 0⟩, s) := by
  refine if_pos ?_
  rw [not_and_or, UInt16.not_le, UInt16.not_le] at h
  exact h.symm

end

end GbtSender

/-! ## The receiver -/

/-- What is to be done after a block. -/
inductive GbtAction
  | await
  | acknowledge
  | complete
  deriving Repr, DecidableEq

/-- Puts an APDU together in `buf`. `received` is the highest block received in order. -/
structure GbtReceiver where
  buf : Bytes
  len : Nat
  received : UInt16
  sinceAck : UInt8
  complete : Bool
  deriving Repr, DecidableEq

namespace GbtReceiver

/-- A receiver filling `buf`. -/
def new (buf : Bytes) : GbtReceiver := ⟨buf, 0, 0, 0, false⟩

/-- Discard everything. -/
def reset (r : GbtReceiver) : GbtReceiver :=
  { r with len := 0, received := 0, sinceAck := 0, complete := false }

/-- What `push` does with a block of a transfer that is not complete. -/
def take (block : GeneralBlockTransfer) : Prog Error GbtReceiver GbtAction := fun r =>
  let expected := if r.received = 0xFFFF then r.received else r.received + 1
  if block.blockNumber ≠ expected then (.ok .acknowledge, { r with sinceAck := 0 })
  else
    let stop := r.len + block.blockData.length
    if r.buf.length < stop then
      (.error ⟨.bufferTooSmall (stop - r.buf.length), r.len⟩, r)
    else
      let sinceAck := if r.sinceAck = 0xFF then r.sinceAck else r.sinceAck + 1
      let r := { r with
        buf := SliceWriter.splice r.buf r.len block.blockData
        len := stop
        received := block.blockNumber
        sinceAck }
      let control : BlockControl := ⟨block.control⟩
      if control.lastBlock then (.ok .complete, { r with complete := true, sinceAck := 0 })
      else
        let window := if control.streaming then max control.window 1 else 1
        if window ≤ r.sinceAck then (.ok .acknowledge, { r with sinceAck := 0 })
        else (.ok .await, r)

/-- Take one block. One that comes after the last starts over. -/
def push (block : GeneralBlockTransfer) : Prog Error GbtReceiver GbtAction := fun r =>
  take block (if r.complete then r.reset else r)

/-- The block number to acknowledge. -/
def acknowledged (r : GbtReceiver) : UInt16 := r.received

/-- The acknowledgement that is owed, into `out`. -/
def acknowledgement (r : GbtReceiver) (window : UInt8) (out : Bytes) : Result Bytes :=
  SliceWriter.encodeInto (GeneralBlockTransfer.ack r.received window).encode out

/-- The APDU, once it is complete. -/
def apdu (r : GbtReceiver) : Bytes := if r.complete then r.buf.take r.len else []

/-- The receiver holds the first `n` blocks of what `s` sends. -/
structure Gathered (s : GbtSender) (r : GbtReceiver) (n : Nat) : Prop where
  received : r.received = UInt16.ofNat n
  le : n ≤ s.total
  len : r.len = min (n * s.fragment) s.apdu.length
  holds : r.buf.take r.len = s.apdu.take (n * s.fragment)
  room : s.apdu.length ≤ r.buf.length
  complete : r.complete = true ↔ n = s.total

namespace Gathered

variable {s : GbtSender} {r : GbtReceiver} {n : Nat}

theorem start {buf : Bytes} (h : s.apdu.length ≤ buf.length) : Gathered s (new buf) 0 := by
  refine ⟨rfl, Nat.zero_le _, ?_, ?_, h, ?_⟩
  · simp [new]
  · simp [new]
  · have := s.total_pos
    simp only [new, Bool.false_eq_true, false_iff]
    omega

/-- Nothing was gathered but the count of blocks since the last acknowledgement. -/
theorem withSinceAck (h : Gathered s r n) (k : UInt8) : Gathered s { r with sinceAck := k } n :=
  ⟨h.received, h.le, h.len, h.holds, h.room, h.complete⟩

/-- What is complete is the whole APDU. -/
theorem apdu_eq (h : Gathered s r n) (hc : r.complete = true) : r.apdu = s.apdu := by
  have hall := s.length_le
  rw [apdu, if_pos hc, h.holds, h.complete.mp hc, List.take_of_length_le hall]

theorem not_complete (h : Gathered s r n) (hn : n < s.total) : r.complete = false := by
  have hne : ¬ r.complete = true := fun hc => hn.ne (h.complete.mp hc)
  exact Bool.not_eq_true _ ▸ hne

/-- Where the block after the ones held ends. -/
theorem stop_eq (h : Gathered s r n) :
    r.len + (s.fragmentAt n).length = min ((n + 1) * s.fragment) s.apdu.length := by
  have hlen := congrArg List.length (s.take_fragmentAt n)
  simp only [List.length_append, List.length_take] at hlen
  rw [h.len, hlen]

/-- The receiver with the next block stored. -/
theorem store (h : Gathered s r n) (hn : n < s.total) (k : UInt8) :
    Gathered s ⟨SliceWriter.splice r.buf r.len (s.fragmentAt n), r.len + (s.fragmentAt n).length,
      UInt16.ofNat (n + 1), k, decide (n + 1 = s.total)⟩ (n + 1) := by
  have hstop := h.stop_eq
  have hfits : r.len + (s.fragmentAt n).length ≤ r.buf.length := by
    rw [hstop]
    exact (min_le_right ..).trans h.room
  refine ⟨rfl, hn, hstop, ?_, ?_, decide_eq_true_iff⟩
  · rw [SliceWriter.splice_take hfits, h.holds, s.take_fragmentAt]
  · rw [SliceWriter.length_splice hfits]
    exact h.room

/-- The block after the ones held is stored. -/
theorem push_next (hs : s.Valid) (h : Gathered s r n) (hn : n < s.total) :
    ∃ action r', push (s.frameAt (UInt16.ofNat n)) r = (.ok action, r') ∧ Gathered s r' (n + 1) ∧
      (action = .complete ↔ n + 1 = s.total) ∧
      (r.sinceAck.toNat < s.window.toNat →
        if n + 1 = s.total ∨ s.window.toNat ≤ r.sinceAck.toNat + 1 then
          action ≠ .await ∧ r'.sinceAck = 0
        else action = .await ∧ r'.sinceAck.toNat = r.sinceAck.toNat + 1) := by
  have hstop := h.stop_eq
  have hfits : ¬ r.buf.length < r.len + (s.fragmentAt n).length := by
    have := h.room
    omega
  obtain ⟨hlast, -, -⟩ := BlockControl.new_fields (decide (n + 1 = s.total)) s.streaming s.window
  have hwindow := hs.window_read (decide (n + 1 = s.total))
  dsimp only at hwindow
  have hrun : push (s.frameAt (UInt16.ofNat n)) r = take (s.frameAt (UInt16.ofNat n)) r := by
    rw [push, h.not_complete hn, if_neg Bool.false_ne_true]
  rw [hrun, hs.frameAt hn, take]
  dsimp only
  rw [h.received, hs.succ hn, if_neg (not_not_intro rfl), if_neg hfits, hlast, hwindow]
  by_cases hend : n + 1 = s.total
  · have hstore := h.store hn 0
    rw [decide_eq_true hend] at hstore
    rw [decide_eq_true hend, if_pos rfl]
    refine ⟨_, _, rfl, hstore, by simp [hend], fun _ => ?_⟩
    rw [if_pos (.inl hend)]
    exact ⟨by simp, rfl⟩
  · have hstore := h.store hn
    rw [decide_eq_false hend] at hstore
    rw [decide_eq_false hend, if_neg Bool.false_ne_true, h.not_complete hn]
    generalize hk : (if r.sinceAck = 0xFF then r.sinceAck else r.sinceAck + 1) = k
    have hnext : r.sinceAck.toNat < s.window.toNat → k.toNat = r.sinceAck.toNat + 1 := by
      intro hlt
      have := hs.window_le
      rw [← hk, if_neg (by intro heq; rw [heq] at hlt; exact absurd hlt (by simp; omega)),
        UInt8.toNat_add, Nat.mod_eq_of_lt (by simp; omega)]
      rfl
    by_cases hfull : s.window ≤ k
    · rw [if_pos hfull]
      refine ⟨_, _, rfl, hstore 0, by simp [hend], fun hlt => ?_⟩
      rw [if_pos (.inr (by rw [← hnext hlt]; exact UInt8.le_iff_toNat_le.mp hfull))]
      exact ⟨by simp, rfl⟩
    · rw [if_neg hfull]
      refine ⟨_, _, rfl, hstore k, by simp [hend], fun hlt => ?_⟩
      rw [if_neg (by rw [← hnext hlt, ← UInt8.le_iff_toNat_le, not_or]; exact ⟨hend, hfull⟩)]
      exact ⟨rfl, hnext hlt⟩

/-- Any other block is answered with an acknowledgement, and not stored. -/
theorem push_other {block : GeneralBlockTransfer} (h : Gathered s r n) (hs : s.Valid)
    (hn : n < s.total) (hne : block.blockNumber ≠ UInt16.ofNat (n + 1)) :
    push block r = (.ok .acknowledge, { r with sinceAck := 0 }) := by
  rw [push, h.not_complete hn, if_neg Bool.false_ne_true, take]
  dsimp only
  rw [h.received, hs.succ hn, if_pos hne, h.not_complete hn]

/-- Any block of the transfer that arrives before it is complete. -/
theorem push_frame (hs : s.Valid) (h : Gathered s r n) (hn : n < s.total) {m : Nat} (hm : m < s.total) :
    ∃ action r' n', push (s.frameAt (UInt16.ofNat m)) r = (.ok action, r') ∧ Gathered s r' n' ∧
      n ≤ n' ∧ (m = n → n' = n + 1) ∧ (action = .complete ↔ r'.complete = true) := by
  by_cases heq : m = n
  · obtain rfl := heq
    obtain ⟨action, r', hrun, hgathered, hlast, -⟩ := h.push_next hs hn
    exact ⟨action, r', m + 1, hrun, hgathered, m.le_succ, fun _ => rfl,
      hlast.trans hgathered.complete.symm⟩
  · have hne : (s.frameAt (UInt16.ofNat m)).blockNumber ≠ UInt16.ofNat (n + 1) := by
      rw [hs.frameAt hm, ne_eq, ← UInt16.toNat_inj, hs.toNat_ofNat hm, hs.toNat_ofNat hn]
      omega
    refine ⟨_, _, n, h.push_other hs hn hne, h.withSinceAck 0, le_rfl, fun h => absurd h heq, ?_⟩
    simp [h.not_complete hn]

end Gathered

end GbtReceiver

/-! ## A link that loses nothing -/

/-- Both ends, the blocks that went over the link and what the receiver answered to them. -/
structure GbtTransfer where
  sender : GbtSender
  receiver : GbtReceiver
  emitted : List GeneralBlockTransfer
  answers : List GbtAction

namespace GbtTransfer

variable {α : Type}

/-- A call of the sender. -/
def onSender (m : Prog Error GbtSender α) : Prog Error GbtTransfer α := fun t =>
  ((m t.sender).1, { t with sender := (m t.sender).2 })

/-- A call of the receiver. -/
def onReceiver (m : Prog Error GbtReceiver α) : Prog Error GbtTransfer α := fun t =>
  ((m t.receiver).1, { t with receiver := (m t.receiver).2 })

/-- One turn of the documented inner loop: false where there is no block to emit. -/
def turn (out : Bytes) : Prog Error GbtTransfer Bool := do
  match ← onSender (GbtSender.nextBlock out) with
  | none => pure false
  | some frame =>
    let block ← Prog.ofExcept (Read.fromBytes GeneralBlockTransfer.decode frame)
    let action ← onReceiver (GbtReceiver.push block)
    Prog.modify fun t => { t with emitted := t.emitted ++ [block], answers := t.answers ++ [action] }
    if action ≠ .await then
      let n ← Prog.gets fun t => t.receiver.acknowledged
      onSender (GbtSender.acknowledge n)
    pure true

/-- The inner loop for at most `fuel` turns: false when they did not do. -/
def emitAll (out : Bytes) : Nat → Prog Error GbtTransfer Bool
  | 0 => pure false
  | fuel + 1 => do
    if ← turn out then emitAll out fuel else pure true

/-- The documented loop, `inner` turns at most for each round of the inner loop and `outer` rounds:
false when they did not do. -/
def drive (out : Bytes) (inner : Nat) : Nat → Prog Error GbtTransfer Bool
  | 0 => pure false
  | outer + 1 => do
    if ← Prog.gets fun t => t.sender.isDone then pure true
    else if ← emitAll out inner then drive out inner outer
    else pure false

/-- Both ends before the first block. -/
def start (s : GbtSender) (storage : Bytes) : GbtTransfer := ⟨s, .new storage, [], []⟩

/-- The `n` blocks that `s` starts with. -/
def firstBlocks (s : GbtSender) (n : Nat) : List GeneralBlockTransfer :=
  (List.range n).map fun i => s.frameAt (UInt16.ofNat i)

/-- After `n` blocks: the sender's outstanding blocks are those that the receiver counts since it last
acknowledged. -/
structure InPhase (s : GbtSender) (t : GbtTransfer) (n : Nat) : Prop where
  sender : t.sender = s.seek (UInt16.ofNat n) t.sender.acked
  receiver : t.receiver.Gathered s n
  acked : t.sender.acked.toNat + t.receiver.sinceAck.toNat = n
  since : t.receiver.sinceAck.toNat < s.window.toNat
  ended : n = s.total → t.receiver.sinceAck = 0
  emitted : t.emitted = firstBlocks s n
  answers : t.answers.getLast? = some .complete ↔ n = s.total

variable {s : GbtSender} {t : GbtTransfer} {n : Nat} {out : Bytes}

theorem firstBlocks_succ (s : GbtSender) (n : Nat) :
    firstBlocks s (n + 1) = firstBlocks s n ++ [s.frameAt (UInt16.ofNat n)] := by
  rw [firstBlocks, List.range_succ, List.map_append]
  rfl

theorem start_inPhase {storage : Bytes} (hs : s.Valid) (hblock : s.block = 0) (hacked : s.acked = 0)
    (hroom : s.apdu.length ≤ storage.length) : InPhase s (start s storage) 0 := by
  refine ⟨?_, .start hroom, ?_, hs.window_pos, fun _ => rfl, rfl, ?_⟩
  · obtain ⟨apdu, block, acked, fragment, window, streaming, hpos⟩ := s
    obtain rfl : block = 0 := hblock
    rfl
  · simp only [start, hacked]
    rfl
  · have := s.total_pos
    simp only [start, List.getLast?_nil]
    constructor
    · exact nofun
    · omega

/-- What is left of a turn when the receiver has answered. -/
def answer (action : GbtAction) : Prog Error GbtTransfer Bool := do
  if action ≠ .await then
    let n ← Prog.gets fun t => t.receiver.acknowledged
    onSender (GbtSender.acknowledge n)
  pure true

/-- A turn takes the next block across. -/
theorem turn_inPhase (hs : s.Valid) (hsize : min s.fragment s.apdu.length < 2 ^ 32)
    (hout : s.Fits out) (h : InPhase s t n) (hn : n < s.total) :
    ∃ t', turn out t = (.ok true, t') ∧ InPhase s t' (n + 1) := by
  obtain ⟨sender, receiver, emitted, answers⟩ := t
  obtain ⟨hsender, hreceiver, hacked, hsince, -, hemitted, -⟩ := h
  dsimp only at hsender hreceiver hacked hsince hemitted
  generalize sender.acked = acked at hsender hacked
  obtain rfl := hsender
  have hopen : n - acked.toNat < s.window.toNat := by omega
  obtain ⟨frame, hnext, hread⟩ := hs.emits hsize hout hn hopen
  obtain ⟨action, receiver', hpush, hgathered, hcomplete, hwindow⟩ := hreceiver.push_next hs hn
  have hturn : turn out ⟨s.seek (UInt16.ofNat n) acked, receiver, emitted, answers⟩ = answer action
      ⟨s.seek (UInt16.ofNat (n + 1)) acked, receiver', emitted ++ [s.frameAt (UInt16.ofNat n)],
        answers ++ [action]⟩ := by
    have hemit : onSender (GbtSender.nextBlock out)
        ⟨s.seek (UInt16.ofNat n) acked, receiver, emitted, answers⟩ =
        (.ok (some frame), ⟨s.seek (UInt16.ofNat (n + 1)) acked, receiver, emitted, answers⟩) := by
      rw [onSender, hnext]
    have htake : onReceiver (GbtReceiver.push (s.frameAt (UInt16.ofNat n)))
        ⟨s.seek (UInt16.ofNat (n + 1)) acked, receiver, emitted, answers⟩ =
        (.ok action, ⟨s.seek (UInt16.ofNat (n + 1)) acked, receiver', emitted, answers⟩) := by
      rw [onReceiver, hpush]
    rw [turn, Prog.bind_run_ok hemit]
    dsimp only
    rw [hread, Prog.ofExcept_ok, Prog.pure_bind_run, Prog.bind_run_ok htake]
    rfl
  have hfirst : emitted ++ [s.frameAt (UInt16.ofNat n)] = firstBlocks s (n + 1) := by
    rw [hemitted, firstBlocks_succ]
  have hlast : (answers ++ [action]).getLast? = some GbtAction.complete ↔ n + 1 = s.total := by
    rw [List.getLast?_concat, Option.some.injEq]
    exact hcomplete
  have hnat : (UInt16.ofNat (n + 1)).toNat = n + 1 := hs.toNat_ofNat hn
  have hwindow := hwindow hsince
  by_cases hack : n + 1 = s.total ∨ s.window.toNat ≤ receiver.sinceAck.toNat + 1
  · rw [if_pos hack] at hwindow
    have hle : acked ≤ UInt16.ofNat (n + 1) := by
      rw [UInt16.le_iff_toNat_le, hnat]
      omega
    have hdone := GbtSender.acknowledge_run (s := s.seek (UInt16.ofNat (n + 1)) acked) hle
      (UInt16.le_refl _)
    refine ⟨⟨s.seek (UInt16.ofNat (n + 1)) (UInt16.ofNat (n + 1)), receiver', _, _⟩,
      hturn.trans ?_, rfl, hgathered, ?_, ?_, fun _ => hwindow.2, hfirst, hlast⟩
    · rw [answer, if_pos hwindow.1]
      simp only [Prog.bind_run, Prog.gets_run, onSender, GbtReceiver.acknowledged, hgathered.received,
        hdone, Prog.pure_run, GbtSender.seek_seek]
    · dsimp only [GbtSender.seek]
      rw [hwindow.2, hnat]
      rfl
    · rw [hwindow.2]
      exact hs.window_pos
  · rw [if_neg hack] at hwindow
    refine ⟨⟨s.seek (UInt16.ofNat (n + 1)) acked, receiver', _, _⟩, hturn.trans ?_, rfl, hgathered,
      ?_, ?_, fun hend => absurd (.inl hend) hack, hfirst, hlast⟩
    · rw [answer, if_neg (not_not_intro hwindow.1)]
      rfl
    · dsimp only [GbtSender.seek]
      omega
    · dsimp only
      omega

/-- Once every block is across, every block is acknowledged. -/
theorem InPhase.isDone (hs : s.Valid) (h : InPhase s t s.total) : t.sender.isDone = true := by
  have hacked := h.acked
  rw [h.ended rfl] at hacked
  rw [h.sender, GbtSender.isDone, decide_eq_true_iff, UInt16.le_iff_toNat_le,
    (hs.seek (UInt16.ofNat s.total) t.sender.acked).blocks]
  exact hacked.ge

/-- After the last block there is none to emit. -/
theorem turn_done (hs : s.Valid) (h : InPhase s t s.total) : turn out t = (.ok false, t) := by
  have hnone : GbtSender.nextBlock out t.sender = (.ok none, t.sender) := by
    rw [GbtSender.nextBlock, if_pos]
    rw [h.sender, UInt16.le_iff_toNat_le, (hs.seek (UInt16.ofNat s.total) t.sender.acked).blocks]
    exact (hs.toNat_ofNat le_rfl).ge
  have hemit : onSender (GbtSender.nextBlock out) t = (.ok none, t) := by
    rw [onSender, hnone]
  exact Prog.bind_run_ok hemit

/-- The inner loop takes all blocks across, and then ends. -/
theorem emitAll_inPhase (hs : s.Valid) (hsize : min s.fragment s.apdu.length < 2 ^ 32)
    (hout : s.Fits out) (h : InPhase s t n) {fuel : Nat} (hfuel : s.total < n + fuel) :
    ∃ t', emitAll out fuel t = (.ok true, t') ∧ InPhase s t' s.total := by
  induction fuel generalizing n t with
  | zero => exact absurd h.receiver.le (by omega)
  | succ fuel ih =>
    by_cases hn : n < s.total
    · obtain ⟨t₁, hturn, h₁⟩ := turn_inPhase hs hsize hout h hn
      obtain ⟨t', hrest, h'⟩ := ih h₁ (by omega)
      exact ⟨t', (Prog.bind_run_ok hturn).trans hrest, h'⟩
    · obtain rfl : n = s.total := Nat.le_antisymm h.receiver.le (Nat.not_lt.mp hn)
      exact ⟨t, Prog.bind_run_ok (turn_done hs h), h⟩

end GbtTransfer

/-- On a link that loses nothing the documented loop takes every APDU across whose blocks carry less
than `2 ^ 32` bytes: it ends, with each block emitted once, the last one answered by `complete`. -/
theorem GbtSender.drive_done {apdu : Bytes} {fragment : Nat} {window : UInt8} {streaming : Bool}
    {s : GbtSender} (hnew : GbtSender.new apdu fragment window streaming = .ok s)
    (hsize : min fragment apdu.length < 2 ^ 32) {out storage : Bytes}
    (hout : s.Fits out) (hroom : apdu.length ≤ storage.length) {inner outer : Nat}
    (hinner : s.blocks.toNat < inner) (houter : 2 ≤ outer) :
    s.blocks.toNat = max (apdu.length ⌈/⌉ fragment) 1 ∧
    ∃ t, GbtTransfer.drive out inner outer (GbtTransfer.start s storage) = (.ok true, t) ∧
      t.emitted.map GeneralBlockTransfer.blockNumber =
        (List.range s.blocks.toNat).map (fun i => UInt16.ofNat (i + 1)) ∧
      t.answers.getLast? = some .complete ∧ t.receiver.apdu = apdu ∧ t.sender.isDone = true := by
  obtain ⟨hs, rfl, rfl, hblock, hacked⟩ := new_valid hnew
  refine ⟨hs.blocks, ?_⟩
  rw [hs.blocks] at hinner ⊢
  have hstart := GbtTransfer.start_inPhase hs hblock hacked hroom
  obtain ⟨t, hall, h⟩ := GbtTransfer.emitAll_inPhase hs hsize hout hstart (by omega : s.total < 0 + inner)
  have hdone := h.isDone hs
  obtain ⟨k, rfl⟩ : ∃ k, outer = k + 2 := ⟨outer - 2, by omega⟩
  have hlast : GbtTransfer.drive out inner (k + 1) t = (.ok true, t) := by
    rw [GbtTransfer.drive, Prog.gets_bind_run, if_pos hdone]
    rfl
  refine ⟨t, ?_, ?_, h.answers.mpr rfl, h.receiver.apdu_eq (h.receiver.complete.mpr rfl), hdone⟩
  · rw [GbtTransfer.drive, Prog.gets_bind_run, GbtTransfer.start, if_neg (hs.not_done hacked)]
    exact (Prog.bind_run_ok hall).trans hlast
  · rw [h.emitted, GbtTransfer.firstBlocks, List.map_map]
    refine List.map_congr_left fun i hi => ?_
    have hframe := hs.frameAt (List.mem_range.mp hi)
    exact congrArg GeneralBlockTransfer.blockNumber hframe

theorem GbtSender.drive_done_sample : ∃ s t,
    GbtSender.new [0xC4, 1, 2, 3, 4] 2 0 true = .ok s ∧
    GbtTransfer.drive (List.replicate 8 0) 4 2 (GbtTransfer.start s (List.replicate 6 0)) = (.ok true, t) ∧
    t.emitted.map GeneralBlockTransfer.blockNumber = [1, 2, 3] ∧
    t.receiver.apdu = [0xC4, 1, 2, 3, 4] := by
  obtain ⟨-, t, hrun, hnumbers, -, hapdu, -⟩ := @GbtSender.drive_done [0xC4, 1, 2, 3, 4]
    2 0 true _ rfl (by decide) (List.replicate 8 0) (List.replicate 6 0) (by decide) (by decide) 4 2
    (by decide) (by decide)
  exact ⟨_, t, rfl, hrun, hnumbers, hapdu⟩

namespace GbtTransfer

variable {s : GbtSender} {out storage : Bytes}

/-- A first block whose length cannot be written is not emitted. -/
theorem turn_refused (hs : s.Valid) (hblock : s.block = 0) (hlow : 2 ^ 32 ≤ (s.fragmentAt 0).length)
    (hhigh : s.apdu.length < 2 ^ 64) :
    ∃ r, turn out (start s storage) = (r, start s storage) ∧ r ≠ .ok true := by
  have hzero : s.block.toNat = 0 := by rw [hblock]; rfl
  obtain ⟨r, hrun, hr⟩ | ⟨-, hf, -⟩ := hs.nextBlock_cases out
  · have hemit : onSender (GbtSender.nextBlock out) (start s storage) = (r, start s storage) := by
      rw [onSender, start, hrun]
    cases r with
    | error e => exact ⟨.error e, Prog.bind_run_error hemit, nofun⟩
    | ok frame =>
      cases frame with
      | none => exact ⟨.ok false, Prog.bind_run_ok hemit, by simp⟩
      | some bs => exact absurd rfl (hr bs)
  · have hlen := GeneralBlockTransfer.data_lt_of_encode hf
    have hle := s.length_fragmentAt_le 0
    rw [hs.frameAt_block (by rw [hzero]; exact s.total_pos), hzero] at hlen
    have := hlen (by dsimp only; omega)
    dsimp only at this
    omega

/-- Where no turn takes a block, the loop never does. -/
theorem drive_refused (hs : s.Valid) (hacked : s.acked = 0)
    (hturn : ∃ r, turn out (start s storage) = (r, start s storage) ∧ r ≠ .ok true)
    (inner outer : Nat) : (drive out inner outer (start s storage)).1 ≠ .ok true := by
  obtain ⟨r, hturn, hr⟩ := hturn
  have hstay : (emitAll out inner (start s storage)).2 = start s storage := by
    cases inner with
    | zero => rfl
    | succ inner =>
      rw [emitAll, Prog.bind_run, hturn]
      match r with
      | .error e => rfl
      | .ok false => rfl
      | .ok true => exact absurd rfl hr
  have hnot : ¬ (start s storage).sender.isDone = true := hs.not_done hacked
  induction outer with
  | zero => exact nofun
  | succ outer ih =>
    rw [drive, Prog.gets_bind_run, if_neg hnot, Prog.bind_run]
    match hemit : emitAll out inner (start s storage) with
    | (.error e, t) => exact nofun
    | (.ok false, t) => exact nofun
    | (.ok true, t) =>
      rw [hemit] at hstay
      obtain rfl := hstay
      exact ih

end GbtTransfer

/-- The loop does not take an APDU across whose first block carries `2 ^ 32` bytes. -/
theorem GbtSender.long_block_refused : ∃ s,
    GbtSender.new (List.replicate (2 ^ 32) 0) (2 ^ 32) 1 false = .ok s ∧
    ∀ out storage inner outer,
      (GbtTransfer.drive out inner outer (GbtTransfer.start s storage)).1 ≠ .ok true := by
  have hblocks : max ((List.replicate (2 ^ 32) (0 : UInt8)).length ⌈/⌉ 2 ^ 32) 1 < 2 ^ 16 := by
    rw [List.length_replicate, Nat.ceilDiv_eq_add_pred_div]
    norm_num
  obtain ⟨s, hs⟩ : ∃ s, GbtSender.new (List.replicate (2 ^ 32) 0) (2 ^ 32) 1 false = .ok s :=
    ⟨_, (dif_pos (by norm_num)).trans (if_pos hblocks)⟩
  obtain ⟨hvalid, hapdu, hfragment, hblock, hacked⟩ := new_valid hs
  have hlen : s.apdu.length = 2 ^ 32 := by rw [hapdu, List.length_replicate]
  refine ⟨s, hs, fun out storage inner outer => GbtTransfer.drive_refused hvalid hacked
    (GbtTransfer.turn_refused hvalid hblock ?_ ?_) inner outer⟩
  · have hdata := congrArg List.length (s.take_fragmentAt 0)
    rw [List.length_append, List.length_take, List.length_take] at hdata
    omega
  · omega

end Dlms
