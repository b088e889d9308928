import DlmsCosem.Lib.Crc
import DlmsCosem.Transport.Decoding

/-!
# Bursts

The check sequence of a frame is a register of sixteen bits (`Crc`) that takes the bytes in as they go
over the line, the lowest bit first. A frame as it was sent leaves the register in one state, whatever
the frame (`crcUpdate_checked`), and so would any bytes that `decodeFrame` accepts in its place. Changed
bits that lie within sixteen on end leave it in another (`Crc.run_ne_of_burst`), and where the length
field is not among them the check is made in the same place: no such burst goes undetected
(`burst_detected`).
-/

namespace Dlms.Hdlc

/-- The polynomial, its bits in the order they are sent. -/
def polynomial : BitVec 16 := 0x8408#16

/-- The bits of a byte string in the order they are sent. -/
def transmitted (bs : Bytes) : List Bool := bs.flatMap fun b => Crc.bits 8 b.toNat

theorem transmitted_cons (b : UInt8) (bs : Bytes) :
    transmitted (b :: bs) = Crc.bits 8 b.toNat ++ transmitted bs := List.flatMap_cons

theorem transmitted_append (a b : Bytes) :
    transmitted (a ++ b) = transmitted a ++ transmitted b := by
  simp [transmitted]

theorem length_transmitted (bs : Bytes) : (transmitted bs).length = 8 * bs.length := by
  induction bs with
  | nil => rfl
  | cons b bs ih =>
    rw [transmitted_cons, List.length_append, Crc.length_bits, ih, List.length_cons]
    omega

/-- Different bytes are sent as different bits. -/
theorem transmitted_inj {a b : Bytes} (h : transmitted a = transmitted b) : a = b := by
  induction a generalizing b with
  | nil =>
    have hlen := congrArg List.length h
    rw [length_transmitted, length_transmitted] at hlen
    exact (List.length_eq_zero_iff.mp (by simpa using hlen.symm)).symm
  | cons x a ih =>
    cases b with
    | nil => simp [transmitted, Crc.bits] at h
    | cons y b =>
      rw [transmitted_cons, transmitted_cons] at h
      obtain ⟨hbits, hrest⟩ := List.append_inj h (by simp)
      have hload := congrArg (Crc.load (w := 8)) hbits
      rw [Crc.load_bits x.toNat_lt, Crc.load_bits y.toNat_lt] at hload
      have hnat := congrArg BitVec.toNat hload
      have hx := x.toNat_lt
      have hy := y.toNat_lt
      simp only [BitVec.toNat_ofNat, Nat.mod_eq_of_lt hx, Nat.mod_eq_of_lt hy] at hnat
      rw [UInt8.toNat_inj.mp hnat, ih hrest]

/-! ## The check sequence as a register -/

theorem crcBit_toBitVec (s : UInt16) : (crcBit s).toBitVec = Crc.shift polynomial s.toBitVec := by
  have hlow : (s &&& 1).toBitVec = BitVec.setWidth 16 (BitVec.ofBool (s.toBitVec.getLsbD 0)) := by
    rw [UInt16.toBitVec_and]
    exact BitVec.and_one_eq_setWidth_ofBool_getLsbD
  unfold crcBit Crc.shift
  cases hbit : s.toBitVec.getLsbD 0 with
  | false =>
    rw [hbit] at hlow
    have hzero : s &&& 1 = 0 := UInt16.toBitVec_inj.mp (by rw [hlow]; rfl)
    simp [hzero]
  | true =>
    rw [hbit] at hlow
    have hone : s &&& 1 = 1 := UInt16.toBitVec_inj.mp (by rw [hlow]; rfl)
    simp [hone, polynomial]

/-- A byte is taken in bit by bit. -/
theorem crcByte_toBitVec (s : UInt16) (b : UInt8) :
    (crcByte s b).toBitVec = Crc.run polynomial s.toBitVec (Crc.bits 8 b.toNat) := by
  have hloaded : (s ^^^ b.toUInt16).toBitVec = s.toBitVec ^^^ BitVec.ofNat 16 b.toNat := by
    rw [UInt16.toBitVec_xor]
    congr 1
    apply BitVec.eq_of_toNat_eq
    simp
  rw [Crc.run_eq_iterate polynomial (by simp), Crc.length_bits, Crc.load_bits b.toNat_lt, ← hloaded]
  simp only [crcByte, Nat.repeat, crcBit_toBitVec, Function.iterate_succ_apply', Function.iterate_zero,
    id_eq]

theorem crcUpdate_toBitVec (s : UInt16) (bs : Bytes) :
    (crcUpdate s bs).toBitVec = Crc.run polynomial s.toBitVec (transmitted bs) := by
  induction bs generalizing s with
  | nil => rfl
  | cons b bs ih =>
    rw [transmitted_cons, Crc.run_append, ← crcByte_toBitVec, ← ih]
    rfl

/-- The check sequence goes out with its lowest bit first. -/
theorem transmitted_leBytes (v : UInt16) : transmitted (leBytes v) = Crc.bits 16 v.toNat := by
  have hv : v.toNat < 65536 := v.toNat_lt
  have hbytes : leBytes v = [UInt8.ofNat (v.toNat % 256), UInt8.ofNat (v.toNat / 256)] := by
    have h : leBytes v = [UInt8.ofNat (v.toNat / 256 ^ 0), UInt8.ofNat (v.toNat / 256 ^ 1)] := rfl
    rw [h, pow_zero, pow_one, Nat.div_one]
    congr 1
    apply UInt8.toNat_inj.mp
    simp
  have hlow : (UInt8.ofNat (v.toNat % 256)).toNat = v.toNat % 256 := by
    simp
  have hhigh : (UInt8.ofNat (v.toNat / 256)).toNat = v.toNat / 256 :=
    UInt8.toNat_ofNat_of_lt' (by change v.toNat / 256 < 256; omega)
  rw [hbytes, transmitted_cons, transmitted_cons, hlow, hhigh]
  rw [show (16 : Nat) = 8 + 8 by rfl, Crc.bits_add, Nat.shiftRight_eq_div_pow]
  simp only [transmitted, List.flatMap_nil, List.append_nil]
  congr 1
  -- The low byte has the same low bits.
  apply List.map_congr_left
  intro i hi
  rw [show (256 : Nat) = 2 ^ 8 by rfl, Nat.testBit_mod_two_pow]
  simp [List.mem_range.mp hi]

/-- Bytes with their own check sequence behind them leave one state of the register. -/
theorem crcUpdate_checked (data : Bytes) :
    crcUpdate 0xFFFF (data ++ leBytes (fcs16 data)) = 0xF0B8 := by
  rw [← crcUpdate_append]
  generalize hs : crcUpdate 0xFFFF data = s
  have hfcs : fcs16 data = ~~~ s := by
    rw [← hs, crcUpdate_fcs16]
  apply UInt16.toBitVec_inj.mp
  rw [hfcs, crcUpdate_toBitVec, transmitted_leBytes, Crc.run_own s.toBitVec (BitVec.allOnes 16)]
  · decide +kernel
  · exact (~~~ s).toNat_lt
  · rw [BitVec.xor_allOnes]
    apply BitVec.eq_of_toNat_eq
    simp
    omega

/-! ## Frames -/

/-- `bs'` is what arrives of the frame `bs`: bits are changed, within sixteen on end, and neither the
opening flag nor the format field nor the closing flag is. -/
structure Burst (bs bs' : Bytes) : Prop where
  length : bs'.length = bs.length
  ne : bs' ≠ bs
  start : bs'.take 3 = bs.take 3
  close : bs'.getLast? = bs.getLast?
  window : ∃ p, ∀ i, (transmitted bs')[i]? ≠ (transmitted bs)[i]? → p ≤ i ∧ i < p + 16

/-- Bytes that decode have their own check sequence behind them. -/
theorem crcUpdate_decodeFrame {bytes : Bytes} {format : UInt16} {r : Frame × Nat}
    (hformat : (decodeFormat (Reader.new bytes)).1 = .ok format) (h : decodeFrame bytes = .ok r) :
    crcUpdate 0xFFFF (slice bytes 1 (1 + (format &&& 0x07FF).toNat)) = 0xF0B8 := by
  obtain ⟨-, -, -, -, -, -, hmin⟩ := decodeFormat_ok hformat
  rw [decodeFrame_of_format hformat] at h
  generalize hn : (format &&& 0x07FF).toNat = n at h hmin ⊢
  rw [minFrameLen] at hmin
  dsimp only at h
  split at h
  · cases h
  rename_i htotal
  split at h
  · cases h
  unfold decodeWhole at h
  obtain ⟨⟨destination, source, control, headerEnd⟩, -, h⟩ := Result.bind_ok.mp h
  rw [hn] at h
  dsimp only at h
  split at h
  · cases h
  split at h
  · cases h
  rename_i hfcs
  have hframe : ∀ a b, b ≤ 1 + n + 1 → slice (slice bytes 0 (1 + n + 1)) a b = slice bytes a b := by
    intro a b hb
    rw [slice, slice, slice, List.drop_zero, List.take_take, Nat.min_eq_left hb]
  have hat : (slice bytes 0 (1 + n + 1)).length = 1 + n + 1 := by
    rw [slice, List.drop_zero, List.length_take]
    omega
  have hchecked : slice bytes 1 (1 + n) = slice bytes 1 (1 + n + 1 - 3) ++
      leBytes (fcs16 (slice bytes 1 (1 + n + 1 - 3))) := by
    simp only [bne_iff_ne, ne_eq, not_not] at hfcs
    rw [← hframe 1 (1 + n + 1 - 3) (by omega), ← hfcs, leBytes_leAt (by rw [hat]; omega),
      slice_append_slice _ (by omega) (by omega), hframe _ _ (by omega)]
    congr 1
    omega
  rw [hchecked]
  exact crcUpdate_checked _

/-- The bits of a frame between its flags. -/
theorem transmitted_framed (inner : Bytes) {i : Nat} (h : i < 8 * inner.length) :
    (transmitted (flag :: (inner ++ [flag])))[8 + i]? = (transmitted inner)[i]? := by
  have hskip : (Crc.bits 8 flag.toNat).length ≤ 8 + i := by simp
  rw [transmitted_cons, transmitted_append, List.getElem?_append_right hskip, Crc.length_bits,
    Nat.add_sub_cancel_left, List.getElem?_append_left (by rw [length_transmitted]; exact h)]

/-- A burst leaves the flags and the format field alone: it is in the bytes between the flags. -/
theorem Burst.framed {inner corrupt : Bytes} (h : Burst (flag :: (inner ++ [flag])) corrupt)
    (hlen : 2 ≤ inner.length) : ∃ inner', corrupt = flag :: (inner' ++ [flag]) ∧
      inner'.length = inner.length ∧ inner'.take 2 = inner.take 2 := by
  have hlength := h.length
  have hstart := h.start
  have hclose := h.close
  match corrupt with
  | [] => simp at hlength
  | a :: rest =>
    rw [List.length_cons, List.length_cons, List.length_append, List.length_singleton] at hlength
    simp only [List.take_succ_cons, List.cons.injEq] at hstart
    obtain ⟨rfl, hstart⟩ := hstart
    have hne : rest ≠ [] := by
      rintro rfl
      simp at hlength
    have hlast : rest.getLast hne = flag := by
      have hsome : (flag :: rest).getLast? = some (rest.getLast hne) := by
        rw [List.getLast?_cons_of_ne_nil hne, List.getLast?_eq_some_getLast hne]
      rw [hsome, ← List.cons_append, List.getLast?_concat] at hclose
      exact Option.some.inj hclose
    refine ⟨rest.dropLast, ?_, ?_, ?_⟩
    · rw [← hlast, List.dropLast_append_getLast]
    · rw [List.length_dropLast]
      omega
    · have htake : (inner ++ [flag]).take 2 = inner.take 2 := List.take_append_of_le_length hlen
      rw [← htake, ← hstart, List.dropLast_eq_take, List.take_take, Nat.min_eq_left (by omega)]

/-- No burst of sixteen bits in a frame goes undetected, whatever the frame is and wherever they lie. -/
theorem burst_detected {f : Frame} {buf bytes corrupt : Bytes}
    (hencode : SliceWriter.encodeInto f.encode buf = .ok bytes) (h : Burst bytes corrupt)
    (rest : Bytes) (r : Frame × Nat) : decodeFrame (corrupt ++ rest) ≠ .ok r := by
  intro hok
  obtain ⟨hlen, -, rfl⟩ := Frame.encodeInto_iff.mp hencode
  obtain ⟨-, hdata⟩ := Frame.encode_data hlen
  obtain ⟨-, -, hframeLen⟩ := Frame.format_read hlen
  generalize hinner : f.checked ++ leBytes (fcs16 f.checked) = inner
  have hbytes : f.encode.data = flag :: (inner ++ [flag]) := by
    rw [hdata, ← hinner, List.append_assoc]
  have hsize : inner.length = f.frameLen := by
    rw [← hinner, List.length_append, length_leBytes, f.length_checked]
  rw [hbytes] at h
  have hsent : crcUpdate 0xFFFF inner = 0xF0B8 := by
    rw [← hinner]
    exact crcUpdate_checked _
  -- The format field is as it was sent, so the check is made in the same place.
  have hformat : (decodeFormat (Reader.new (flag :: inner))).1 = .ok f.format := by
    obtain ⟨more, hmore⟩ := f.checked_header
    rw [← hinner, hmore, List.append_assoc]
    exact Frame.decodeFormat_run hlen _
  have hlong : 2 ≤ inner.length := by
    have := f.length_checked
    omega
  obtain ⟨inner', rfl, hsize', hfront⟩ := h.framed hlong
  have hformat' : (decodeFormat (Reader.new (flag :: (inner' ++ [flag]) ++ rest))).1 = .ok f.format := by
    rw [List.cons_append, List.append_assoc, ← hformat]
    refine (decodeFormat_congr hlong ?_).symm
    rw [List.take_append_of_le_length (by omega), hfront]
  have harrived := crcUpdate_decodeFrame hformat' hok
  rw [hframeLen] at harrived
  have hslice : slice (flag :: (inner' ++ [flag]) ++ rest) 1 (1 + f.frameLen) = inner' := by
    rw [← hsize, ← hsize', List.cons_append, List.append_assoc]
    exact Frame.slice_append [flag] inner' _
  rw [hslice, ← hsent] at harrived
  have hregister := congrArg UInt16.toBitVec harrived
  rw [crcUpdate_toBitVec, crcUpdate_toBitVec] at hregister
  obtain ⟨p, hwindow⟩ := h.window
  refine Crc.run_ne_of_burst (by decide) _ (p - 8) ?_ ?_ ?_ hregister
  · rw [length_transmitted, length_transmitted, hsize']
  · intro hsame
    exact h.ne (by rw [transmitted_inj hsame])
  · intro i hi
    have hin : i < 8 * inner.length := by
      by_contra hout
      apply hi
      rw [List.getElem?_eq_none, List.getElem?_eq_none] <;> rw [length_transmitted] <;> omega
    have hchanged := hwindow (8 + i) (by
      rwa [transmitted_framed inner hin, transmitted_framed inner' (by rw [hsize']; exact hin)])
    omega

/-- The sample frame with three bits of its addresses changed, so that the first one seems to go on. -/
def sampleCorrupt : Bytes := (sampleFrame.encode.data.modify 3 (· ^^^ 0x81)).modify 4 (· ^^^ 0x40)

theorem sampleCorrupt_burst : Burst sampleFrame.encode.data sampleCorrupt := by
  have hwindow : ∀ i < 136, (transmitted sampleCorrupt)[i]? ≠ (transmitted sampleFrame.encode.data)[i]? →
      24 ≤ i ∧ i < 24 + 16 := by decide +kernel
  have hlen : sampleFrame.encode.data.length = 17 ∧ sampleCorrupt.length = 17 := by decide +kernel
  refine ⟨by rw [hlen.1, hlen.2], by decide +kernel, by decide +kernel, by decide +kernel, 24, ?_⟩
  intro i hi
  by_cases hin : i < 136
  · exact hwindow i hin hi
  · rw [List.getElem?_eq_none, List.getElem?_eq_none] at hi
    · exact absurd rfl hi
    all_goals rw [length_transmitted]
    · rw [hlen.1]
      omega
    · rw [hlen.2]
      omega

theorem burst_detected_sample : ∃ bytes,
    SliceWriter.encodeInto sampleFrame.encode (List.replicate 24 0) = .ok bytes ∧
    Burst bytes sampleCorrupt ∧ ∀ rest r, decodeFrame (sampleCorrupt ++ rest) ≠ .ok r := by
  have hencode : SliceWriter.encodeInto sampleFrame.encode (List.replicate 24 0) =
      .ok sampleFrame.encode.data :=
    SliceWriter.encodeInto_fits (by decide +kernel) (by decide +kernel)
  exact ⟨_, hencode, sampleCorrupt_burst, burst_detected hencode sampleCorrupt_burst⟩

end Dlms.Hdlc
