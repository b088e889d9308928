import DlmsCosem.Axdr.RoundTrip

/-!
# HDLC frames

A frame stands between two flags: a format field with the length, two addresses, a control byte, a
check sequence of this header where an information field follows, the information, and a check
sequence of everything. `Frame.encode` is an `Emit`; `decodeFrame` takes a byte string apart that
starts at a flag. What the one writes the other reads (`Frame.round_trip`).
-/

namespace Dlms.Hdlc

/-- The byte that opens and closes a frame. -/
def flag : UInt8 := 0x7E

/-! ## The check sequence -/

/-- One bit of the CRC. -/
def crcBit (fcs : UInt16) : UInt16 := if fcs &&& 1 != 0 then (fcs >>> 1) ^^^ 0x8408 else fcs >>> 1

/-- One byte of the CRC. -/
def crcByte (fcs : UInt16) (b : UInt8) : UInt16 := Nat.repeat crcBit 8 (fcs ^^^ b.toUInt16)

/-- `fcs16`: CRC-16/X-25. -/
def fcs16 (data : Bytes) : UInt16 := ~~~ data.foldl crcByte 0xFFFF

/-- `crc_update`. -/
def crcUpdate (fcs : UInt16) (data : Bytes) : UInt16 := data.foldl crcByte fcs

/-- `to_le_bytes`. -/
def leBytes (v : UInt16) : Bytes := (beBytes 2 v.toNat).reverse

/-- `from_le_bytes` of two bytes of `bs`, which has them. -/
def leAt (bs : Bytes) (at' : Nat) : UInt16 :=
  UInt16.ofNat (beNat [bs.getD (at' + 1) 0, bs.getD at' 0])

/-- A CRC that is computed piece by piece is that of the whole. -/
theorem crcUpdate_fcs16 (data : Bytes) : ~~~ crcUpdate 0xFFFF data = fcs16 data := rfl

theorem crcUpdate_append (fcs : UInt16) (a b : Bytes) :
    crcUpdate (crcUpdate fcs a) b = crcUpdate fcs (a ++ b) := by
  rw [crcUpdate, crcUpdate, crcUpdate, List.foldl_append]

theorem length_leBytes (v : UInt16) : (leBytes v).length = 2 := by
  rw [leBytes, List.length_reverse, length_beBytes]

/-- A check sequence is read back where it was written. -/
theorem leAt_leBytes (a b : Bytes) (v : UInt16) : leAt (a ++ (leBytes v ++ b)) a.length = v := by
  obtain ⟨lo, hi, hle⟩ : ∃ lo hi, leBytes v = [lo, hi] := ⟨_, _, rfl⟩
  have hbe : beBytes 2 v.toNat = [hi, lo] := by
    rw [← List.reverse_reverse (beBytes 2 v.toNat), ← leBytes, hle]
    rfl
  have hlo : (a ++ ([lo, hi] ++ b)).getD a.length 0 = lo := by
    simp
  have hhi : (a ++ ([lo, hi] ++ b)).getD (a.length + 1) 0 = hi := by
    simp
  have hlt : v.toNat < 256 ^ 2 := v.toNat_lt
  rw [leAt, hle, hlo, hhi, ← hbe, beNat_beBytes, Nat.mod_eq_of_lt hlt, UInt16.ofNat_toNat]

/-! ## Addresses -/

/-- One, two or four bytes of seven bits each, the last one marked by its low bit. -/
inductive Address
  | single (v : UInt8)
  | double (upper lower : UInt8)
  | quad (upper lower : UInt16)
  deriving Repr, DecidableEq

namespace Address

/-- How many bytes the address takes. -/
def len : Address → Nat
  | single _ => 1
  | double _ _ => 2
  | quad _ _ => 4

def encode : Address → Emit
  | single v => Emit.u8 ((v <<< 1) ||| 1)
  | double upper lower => Emit.bytes [upper <<< 1, (lower <<< 1) ||| 1]
  | quad upper lower => Emit.bytes [(upper >>> 7).toUInt8 <<< 1, (upper &&& 0x7F).toUInt8 <<< 1,
      (lower >>> 7).toUInt8 <<< 1, ((lower &&& 0x7F).toUInt8 <<< 1) ||| 1]

/-- The parts up to the byte whose low bit is set, `left` of them at most. -/
def decodeParts : (left : Nat) → (parts : List UInt8) → Read (List UInt8)
  | 0, _ => Read.fail .invalidValue
  | left + 1, parts => do
    let b ← Read.u8
    let parts := parts ++ [b >>> 1]
    if b &&& 1 != 0 then pure parts else decodeParts left parts

/-- The address of its parts. -/
def ofParts : List UInt8 → Read Address
  | [v] => pure (single v)
  | [upper, lower] => pure (double upper lower)
  | [a, b, c, d] =>
    pure (quad ((a.toUInt16 <<< 7) ||| b.toUInt16) ((c.toUInt16 <<< 7) ||| d.toUInt16))
  | _ => Read.fail .invalidValue

def decode : Read Address := do ofParts (← decodeParts 4 [])

/-- Every part fits in its bits. -/
def Fits : Address → Prop
  | single v => v < 0x80
  | double upper lower => upper < 0x80 ∧ lower < 0x80
  | quad upper lower => upper < 0x4000 ∧ lower < 0x4000

/-- A part that is the last one. -/
theorem last_part {v : UInt8} (h : v < 0x80) :
    ((v <<< 1) ||| 1) &&& 1 != 0 ∧ ((v <<< 1) ||| 1) >>> 1 = v := by
  have hall : ∀ n : Fin 128, ((UInt8.ofNat n <<< 1) ||| 1) &&& 1 != 0 ∧
      ((UInt8.ofNat n <<< 1) ||| 1) >>> 1 = UInt8.ofNat n := by decide +kernel
  have hv := hall ⟨v.toNat, UInt8.lt_iff_toNat_lt.mp h⟩
  rwa [UInt8.ofNat_toNat] at hv

/-- A part that others follow. -/
theorem next_part {v : UInt8} (h : v < 0x80) :
    ¬ (v <<< 1) &&& 1 != 0 ∧ (v <<< 1) >>> 1 = v := by
  have hall : ∀ n : Fin 128, ¬ (UInt8.ofNat n <<< 1) &&& 1 != 0 ∧
      (UInt8.ofNat n <<< 1) >>> 1 = UInt8.ofNat n := by decide +kernel
  have hv := hall ⟨v.toNat, UInt8.lt_iff_toNat_lt.mp h⟩
  rwa [UInt8.ofNat_toNat] at hv

/-- The two parts of fourteen bits. -/
theorem quad_parts {v : UInt16} (h : v < 0x4000) :
    (v >>> 7).toUInt8 < 0x80 ∧ (v &&& 0x7F).toUInt8 < 0x80 ∧
      (((v >>> 7).toUInt8.toUInt16 <<< 7) ||| (v &&& 0x7F).toUInt8.toUInt16) = v := by
  have hlt : v.toNat < 0x4000 := UInt16.lt_iff_toNat_lt.mp h
  have hhigh : (v >>> 7).toUInt8.toNat = v.toNat / 128 := by
    simp [Nat.shiftRight_eq_div_pow]
    omega
  have hlow : (v &&& 0x7F).toUInt8.toNat = v.toNat % 128 := by
    have hand : v.toNat &&& 0x7F = v.toNat % 128 := Nat.and_two_pow_sub_one_eq_mod v.toNat 7
    rw [UInt16.toNat_toUInt8, UInt16.toNat_and]
    change (v.toNat &&& 0x7F) % 256 = _
    rw [hand]
    omega
  refine ⟨UInt8.lt_iff_toNat_lt.mpr ?_, UInt8.lt_iff_toNat_lt.mpr ?_, UInt16.toNat_inj.mp ?_⟩
  · rw [hhigh]
    exact Nat.div_lt_of_lt_mul hlt
  · rw [hlow]
    exact Nat.mod_lt _ (by decide)
  · have hjoin := Nat.shiftLeft_add_eq_or_of_lt (i := 7) (b := v.toNat % 128) (Nat.mod_lt _ (by decide))
      (v.toNat / 128)
    rw [UInt16.toNat_or, UInt16.toNat_shiftLeft, UInt8.toNat_toUInt16, UInt8.toNat_toUInt16, hhigh, hlow]
    change ((v.toNat / 128) <<< 7) % 65536 ||| v.toNat % 128 = v.toNat
    rw [Nat.mod_eq_of_lt (by rw [Nat.shiftLeft_eq]; omega), ← hjoin, Nat.shiftLeft_eq]
    omega

theorem decodeParts_last {left : Nat} {parts : List UInt8} {v : UInt8} (h : v < 0x80) :
    Takes (decodeParts (left + 1) parts) [(v <<< 1) ||| 1] (parts ++ [v] = ·) := by
  obtain ⟨hlow, hhigh⟩ := last_part h
  change Takes _ ([(v <<< 1) ||| 1] ++ []) _
  refine (Takes.u8 ((v <<< 1) ||| 1)).bind fun b hb => ?_
  rw [← hb]
  dsimp only
  rw [if_pos hlow, hhigh]
  exact .pure rfl

theorem decodeParts_next {left : Nat} {parts : List UInt8} {v : UInt8} {bs : Bytes}
    {P : List UInt8 → Prop} (h : v < 0x80) (hrest : Takes (decodeParts left (parts ++ [v])) bs P) :
    Takes (decodeParts (left + 1) parts) ((v <<< 1) :: bs) P := by
  obtain ⟨hlow, hhigh⟩ := next_part h
  change Takes _ ([v <<< 1] ++ bs) P
  refine (Takes.u8 (v <<< 1)).bind fun b hb => ?_
  rw [← hb]
  dsimp only
  rw [if_neg hlow, hhigh]
  exact hrest

/-- An address is read back. -/
theorem takes_encode {a : Address} (h : a.Fits) : Takes decode a.encode.data (a = ·) := by
  have hparts : ∀ {parts : List UInt8} {bs : Bytes}, Takes (decodeParts 4 []) bs (parts = ·) →
      ofParts parts = pure a → Takes decode bs (a = ·) := by
    intro parts bs hbs ha
    have hall : Takes (decodeParts 4 [] >>= ofParts) (bs ++ []) (a = ·) := hbs.bind fun b hb => by
      rw [← hb, ha]
      exact .pure rfl
    rwa [List.append_nil] at hall
  cases a with
  | single v => exact hparts (.mono (decodeParts_last h) fun _ => id) rfl
  | double upper lower =>
    exact hparts (decodeParts_next h.1 (decodeParts_last h.2)) rfl
  | quad upper lower =>
    obtain ⟨hu, hu', hupper⟩ := quad_parts h.1
    obtain ⟨hl, hl', hlower⟩ := quad_parts h.2
    refine hparts (decodeParts_next hu (decodeParts_next hu' (decodeParts_next hl
      (decodeParts_last hl')))) ?_
    change pure (quad _ _) = _
    rw [hupper, hlower]

theorem encode_sized (a : Address) : Emit.Sized a.encode a.len := by
  cases a with
  | single v => exact .u8 _
  | double upper lower => exact .bytes _
  | quad upper lower => exact .bytes _

theorem len_le (a : Address) : a.len ≤ 4 := by
  cases a <;> simp [len]

theorem len_pos (a : Address) : 0 < a.len := by
  cases a <;> exact Nat.succ_pos _

end Address

/-! ## The control field -/

/-- Which kind of frame, and its sequence numbers. -/
inductive Control
  | i (ns nr : UInt8) (pf : Bool)
  | rr (nr : UInt8) (pf : Bool)
  | rnr (nr : UInt8) (pf : Bool)
  | snrm
  | ua
  | disc
  | dm
  | frmr
  | ui
  deriving Repr, DecidableEq

namespace Control

/-- The control byte. -/
def asU8 : Control → UInt8
  | i ns nr pf => ((nr &&& 7) <<< 5) ||| (pf.toUInt8 <<< 4) ||| ((ns &&& 7) <<< 1)
  | rr nr pf => ((nr &&& 7) <<< 5) ||| (pf.toUInt8 <<< 4) ||| 0x01
  | rnr nr pf => ((nr &&& 7) <<< 5) ||| (pf.toUInt8 <<< 4) ||| 0x05
  | snrm => 0x93
  | ua => 0x73
  | disc => 0x53
  | dm => 0x1F
  | frmr => 0x97
  | ui => 0x13

/-- Classify a control byte. -/
def fromU8 (v : UInt8) : Control :=
  if v &&& 1 == 0 then i ((v >>> 1) &&& 7) ((v >>> 5) &&& 7) (v &&& 0x10 != 0)
  else
    match v &&& ~~~0x10 with
    | 0x83 => snrm
    | 0x63 => ua
    | 0x43 => disc
    | 0x0F => dm
    | 0x87 => frmr
    | 0x03 => ui
    | _ =>
      match v &&& 0x0F with
      | 0x01 => rr ((v >>> 5) &&& 7) (v &&& 0x10 != 0)
      | 0x05 => rnr ((v >>> 5) &&& 7) (v &&& 0x10 != 0)
      | _ => frmr

/-- The sequence numbers are below eight. -/
def Fits : Control → Prop
  | i ns nr _ => ns < 8 ∧ nr < 8
  | rr nr _ | rnr nr _ => nr < 8
  | _ => True

theorem fromU8_asU8 {c : Control} (h : c.Fits) : fromU8 c.asU8 = c := by
  have hi : ∀ n m : Fin 8, ∀ pf, fromU8 (i (UInt8.ofNat n) (UInt8.ofNat m) pf).asU8 =
      i (UInt8.ofNat n) (UInt8.ofNat m) pf := by decide +kernel
  have hr : ∀ n : Fin 8, ∀ pf, fromU8 (rr (UInt8.ofNat n) pf).asU8 = rr (UInt8.ofNat n) pf ∧
      fromU8 (rnr (UInt8.ofNat n) pf).asU8 = rnr (UInt8.ofNat n) pf := by decide +kernel
  cases c with
  | i ns nr pf =>
    have hall := hi ⟨ns.toNat, UInt8.lt_iff_toNat_lt.mp h.1⟩ ⟨nr.toNat, UInt8.lt_iff_toNat_lt.mp h.2⟩ pf
    rwa [UInt8.ofNat_toNat, UInt8.ofNat_toNat] at hall
  | rr nr pf =>
    have hall := hr ⟨nr.toNat, UInt8.lt_iff_toNat_lt.mp h⟩ pf
    rw [UInt8.ofNat_toNat] at hall
    exact hall.1
  | rnr nr pf =>
    have hall := hr ⟨nr.toNat, UInt8.lt_iff_toNat_lt.mp h⟩ pf
    rw [UInt8.ofNat_toNat] at hall
    exact hall.2
  | snrm | ua | disc | dm | frmr | ui => decide

end Control

/-! ## Frames -/

/-- A frame, between its flags. -/
structure Frame where
  segmented : Bool
  destination : Address
  source : Address
  control : Control
  information : Bytes
  deriving Repr, DecidableEq

namespace Frame

/-- How many bytes the frame takes, the flags included. -/
def encodedLen (f : Frame) : Nat :=
  let body := 2 + f.destination.len + f.source.len + 1
  let info := if f.information.isEmpty then 0 else 2 + f.information.length
  1 + body + info + 2 + 1

/-- How many bytes stand between the flags. -/
def frameLen (f : Frame) : Nat :=
  let headerLen := 2 + f.destination.len + f.source.len + 1
  let hcsLen := (if f.information.isEmpty then 0 else 1) * 2
  headerLen + hcsLen + f.information.length + 2

/-- The format field. -/
def format (f : Frame) : UInt16 :=
  (0xA000 : UInt16) ||| (f.segmented.toUInt16 <<< 11) ||| UInt16.ofNat f.frameLen

/-- The format field, the addresses and the control byte. -/
def header (f : Frame) : Emit :=
  Emit.u16 f.format ++ f.destination.encode ++ f.source.encode ++ Emit.u8 f.control.asU8

def encode (f : Frame) : Emit :=
  if 0x7FF < f.frameLen then Emit.failAt ⟨.invalidLength, 0⟩
  else
    match SliceWriter.encodeInto f.header (List.replicate 12 0) with
    | .error e => Emit.failAt e
    | .ok header =>
      let fcs := crcUpdate 0xFFFF header
      if f.information.isEmpty then
        Emit.u8 flag ++ Emit.bytes header ++ Emit.bytes (leBytes (~~~ fcs)) ++ Emit.u8 flag
      else
        let hcs := leBytes (fcs16 header)
        let fcs := crcUpdate (crcUpdate fcs hcs) f.information
        Emit.u8 flag ++ Emit.bytes header ++ Emit.bytes hcs ++ Emit.bytes f.information ++
          Emit.bytes (leBytes (~~~ fcs)) ++ Emit.u8 flag

end Frame

/-- The shortest frame: the format field, two addresses of a byte, the control byte and the check
sequence. -/
def minFrameLen : Nat := 2 + 1 + 1 + 1 + 2

/-- The opening flag and the format field. -/
def decodeFormat : Read UInt16 := do
  if (← Read.u8) != flag then Read.errBack .invalidValue 1
  else
    let format ← Read.u16
    if format &&& 0xF000 != 0xA000 then Read.errBack .invalidValue 2
    else if (format &&& 0x07FF).toNat < minFrameLen then Read.errBack .invalidLength 2
    else pure format

/-- The addresses and the control byte of a frame, and where they end. -/
def decodeHeader : Read (Address × Address × Control × Nat) := do
  Read.skip 3
  let destination ← Address.decode
  let source ← Address.decode
  let control := Control.fromU8 (← Read.u8)
  return (destination, source, control, ← Read.offset)

/-- `bytes[start..stop]`. -/
def slice (bytes : Bytes) (start stop : Nat) : Bytes := (bytes.take stop).drop start

/-- `decode_frame`: the frame at the start of `bytes`, and how many bytes it takes. -/
def decodeFrame (bytes : Bytes) : Result (Frame × Nat) := do
  let format ← (decodeFormat (Reader.new bytes)).1
  let segmented := format &&& 0x0800 != 0
  let frameLen := (format &&& 0x07FF).toNat
  let total := 1 + frameLen + 1
  if bytes.length < total then .error ⟨.truncated (total - bytes.length), bytes.length⟩
  else if bytes.getD (total - 1) 0 != flag then .error ⟨.invalidValue, total - 1⟩
  else
    -- From here on nothing is read that stands behind the frame.
    let frame := slice bytes 0 total
    let (destination, source, control, headerEnd) ← (decodeHeader (Reader.new frame)).1
    let fcsAt := total - 3
    if fcsAt < headerEnd then .error ⟨.invalidLength, headerEnd⟩
    else if leAt frame fcsAt != fcs16 (slice frame 1 fcsAt) then .error ⟨.badChecksum, fcsAt⟩
    else if headerEnd == fcsAt then .ok (⟨segmented, destination, source, control, []⟩, total)
    else if fcsAt < headerEnd + 2 then .error ⟨.invalidLength, headerEnd⟩
    else if leAt frame headerEnd != fcs16 (slice frame 1 headerEnd) then
      .error ⟨.badChecksum, headerEnd⟩
    else .ok (⟨segmented, destination, source, control, slice frame (headerEnd + 2) fcsAt⟩, total)

/-! ## The round trip -/

/-- The format field is read back from a length of eleven bits. -/
theorem format_fields {n : Nat} (h : n < 2048) (s : Bool) :
    let format := (0xA000 : UInt16) ||| (s.toUInt16 <<< 11) ||| UInt16.ofNat n
    format &&& 0xF000 = 0xA000 ∧ (format &&& 0x0800 != 0) = s ∧ (format &&& 0x07FF).toNat = n := by
  have hlow : UInt16.ofNat n &&& 0x07FF = UInt16.ofNat n := by
    apply UInt16.toNat_inj.mp
    rw [UInt16.toNat_and, UInt16.toNat_ofNat_of_lt' (by change n < 65536; omega)]
    have hmod : n &&& 0x07FF = n % 2048 := Nat.and_two_pow_sub_one_eq_mod n 11
    exact hmod.trans (Nat.mod_eq_of_lt h)
  have hclear : ∀ m : UInt16, 0x07FF &&& m = 0 → UInt16.ofNat n &&& m = 0 := by
    intro m hm
    rw [← hlow, UInt16.and_assoc, hm, UInt16.and_zero]
  have hdistrib : ∀ c m : UInt16, (c ||| UInt16.ofNat n) &&& m =
      (c &&& m) ||| (UInt16.ofNat n &&& m) := by
    intro c m
    apply UInt16.toNat_inj.mp
    rw [UInt16.toNat_and, UInt16.toNat_or, UInt16.toNat_or, UInt16.toNat_and, UInt16.toNat_and,
      Nat.and_or_distrib_right]
  dsimp only
  rw [hdistrib, hdistrib, hdistrib, hclear 0xF000 (by decide), hclear 0x0800 (by decide), hlow]
  have hnat : (UInt16.ofNat n).toNat = n := UInt16.toNat_ofNat_of_lt' (by change n < 65536; omega)
  cases s with
  | false => exact ⟨by decide, by decide, (congrArg UInt16.toNat UInt16.zero_or).trans hnat⟩
  | true => exact ⟨by decide, by decide, (congrArg UInt16.toNat UInt16.zero_or).trans hnat⟩

namespace Frame

variable {f : Frame}

theorem header_sized (f : Frame) :
    Emit.Sized f.header (2 + f.destination.len + f.source.len + 1) :=
  (((Emit.Sized.u16 _).append f.destination.encode_sized).append f.source.encode_sized).append (.u8 _)

/-- What the last check sequence is of. -/
def checked (f : Frame) : Bytes :=
  if f.information.isEmpty then f.header.data
  else f.header.data ++ (leBytes (fcs16 f.header.data) ++ f.information)

/-- The header comes first. -/
theorem checked_header (f : Frame) : ∃ more, f.checked = f.header.data ++ more := by
  unfold checked
  split
  · exact ⟨[], (List.append_nil _).symm⟩
  · exact ⟨_, rfl⟩

theorem length_checked (f : Frame) : f.checked.length + 2 = f.frameLen := by
  have hheader := f.header_sized.size
  rw [Emit.size] at hheader
  unfold checked frameLen
  dsimp only
  by_cases hempty : f.information.isEmpty = true
  · have hnil := List.isEmpty_iff.mp hempty
    rw [if_pos hempty, if_pos hempty, hheader, hnil]
    rfl
  · rw [if_neg hempty, if_neg hempty, List.length_append, List.length_append, length_leBytes, hheader]
    omega

theorem encodedLen_eq (f : Frame) : f.encodedLen = f.frameLen + 2 := by
  unfold encodedLen frameLen
  dsimp only
  by_cases hempty : f.information.isEmpty = true
  · have hnil := List.isEmpty_iff.mp hempty
    rw [if_pos hempty, if_pos hempty, hnil, List.length_nil]
    omega
  · rw [if_neg hempty, if_neg hempty]
    omega

/-- What is written of a frame that is not too long. -/
theorem encode_data (h : f.frameLen ≤ 0x7FF) : f.encode.fault = none ∧
    f.encode.data = flag :: (f.checked ++ (leBytes (fcs16 f.checked) ++ [flag])) := by
  have hfits : f.header.size ≤ (List.replicate 12 (0 : UInt8)).length := by
    have := f.destination.len_le
    have := f.source.len_le
    rw [f.header_sized.size, List.length_replicate]
    omega
  have hheader := SliceWriter.encodeInto_fits f.header_sized.fault hfits
  unfold encode
  rw [if_neg (Nat.not_lt.mpr h), hheader]
  dsimp only
  by_cases hempty : f.information.isEmpty = true
  · have hchecked : f.checked = f.header.data := if_pos hempty
    rw [if_pos hempty, crcUpdate_fcs16, hchecked]
    refine ⟨rfl, ?_⟩
    rw [Emit.append_data rfl, Emit.append_data rfl, Emit.append_data rfl]
    simp only [Emit.u8_data, Emit.bytes_data, List.append_assoc, List.cons_append, List.nil_append]
  · have hchecked : f.checked = f.header.data ++ (leBytes (fcs16 f.header.data) ++ f.information) :=
      if_neg hempty
    rw [if_neg hempty, crcUpdate_append, crcUpdate_append, crcUpdate_fcs16, hchecked]
    refine ⟨rfl, ?_⟩
    rw [Emit.append_data rfl, Emit.append_data rfl, Emit.append_data rfl, Emit.append_data rfl,
      Emit.append_data rfl]
    simp only [Emit.u8_data, Emit.bytes_data, List.append_assoc, List.cons_append, List.nil_append]

theorem format_read (h : f.frameLen ≤ 0x7FF) :
    f.format &&& 0xF000 = 0xA000 ∧ (f.format &&& 0x0800 != 0) = f.segmented ∧
      (f.format &&& 0x07FF).toNat = f.frameLen :=
  format_fields (Nat.lt_succ_of_le h) f.segmented

theorem header_data (f : Frame) : f.header.data = beBytes 2 f.format.toNat ++
    (f.destination.encode.data ++ (f.source.encode.data ++ [f.control.asU8])) := by
  unfold header
  have hdest := f.destination.encode_sized.fault
  have hsource := f.source.encode_sized.fault
  rw [Emit.append_data (Emit.append_fault_eq_none.mpr ⟨Emit.append_fault_eq_none.mpr ⟨rfl, hdest⟩, hsource⟩),
    Emit.append_data (Emit.append_fault_eq_none.mpr ⟨rfl, hdest⟩), Emit.append_data rfl, Emit.u8_data,
    Emit.u16, Emit.bytes_data]
  simp only [List.append_assoc]

/-- The format field is read off the start of what was written. -/
theorem decodeFormat_run (h : f.frameLen ≤ 0x7FF) (rest : Bytes) :
    (decodeFormat (Reader.new (flag :: (f.header.data ++ rest)))).1 = .ok f.format := by
  obtain ⟨hkind, -, hlen⟩ := format_read h
  have hlong : ¬ (f.format &&& 0x07FF).toNat < minFrameLen := by
    have := f.destination.len_pos
    have := f.source.len_pos
    rw [hlen, frameLen, minFrameLen]
    omega
  have htakes : Takes decodeFormat ([flag] ++ (beBytes 2 f.format.toNat ++ [])) (f.format = ·) := by
    refine (Takes.u8 flag).bind fun b hb => ?_
    obtain rfl := hb
    rw [if_neg (by decide)]
    refine Takes.bind (.ofReads (.u16 f.format)) fun format hformat => ?_
    obtain rfl := hformat
    rw [if_neg (by rw [hkind]; decide), if_neg hlong]
    exact .pure rfl
  have hbytes : (Reader.new (flag :: (f.header.data ++ rest))).rest =
      [flag] ++ (beBytes 2 f.format.toNat ++ []) ++ (f.destination.encode.data ++
        (f.source.encode.data ++ ([f.control.asU8] ++ rest))) := by
    rw [f.header_data]
    simp [Reader.new]
  obtain ⟨a, r, hrun, rfl, -⟩ := htakes _ _ hbytes
  rw [hrun]

/-- The addresses and the control byte are read off the start of what was written. -/
theorem decodeHeader_run (hd : f.destination.Fits) (hs : f.source.Fits) (hc : f.control.Fits)
    (rest : Bytes) : (decodeHeader (Reader.new (flag :: (f.header.data ++ rest)))).1 =
      .ok (f.destination, f.source, f.control, 1 + f.header.data.length) := by
  have hbytes : (Reader.new (flag :: (f.header.data ++ rest))).rest =
      (flag :: beBytes 2 f.format.toNat) ++ (f.destination.encode.data ++
        (f.source.encode.data ++ ([f.control.asU8] ++ rest))) := by
    rw [f.header_data]
    simp [Reader.new]
  have hskip : Takes (Read.skip 3) (flag :: beBytes 2 f.format.toNat) fun _ => True :=
    (Takes.take (flag :: beBytes 2 f.format.toNat)).map fun _ _ => trivial
  obtain ⟨_, r₁, hrun₁, -, hadv₁⟩ := hskip _ _ hbytes
  have hrest₁ := Reader.Consumed.after ⟨hbytes, hadv₁⟩
  obtain ⟨_, r₂, hrun₂, rfl, hadv₂⟩ := Address.takes_encode hd _ _ hrest₁
  have hrest₂ := Reader.Consumed.after ⟨hrest₁, hadv₂⟩
  obtain ⟨_, r₃, hrun₃, rfl, hadv₃⟩ := Address.takes_encode hs _ _ hrest₂
  have hrest₃ := Reader.Consumed.after ⟨hrest₂, hadv₃⟩
  obtain ⟨_, r₄, hrun₄, rfl, hadv₄⟩ := Takes.u8 f.control.asU8 _ _ hrest₃
  have hoffset : r₄.offset = 1 + f.header.data.length := by
    rw [hadv₄.offset, hadv₃.offset, hadv₂.offset, hadv₁.offset, f.header_data]
    simp [Reader.new]
    omega
  rw [decodeHeader, Prog.bind_run_ok hrun₁, Prog.bind_run_ok hrun₂, Prog.bind_run_ok hrun₃,
    Prog.bind_run_ok hrun₄, Read.offset, Prog.gets_bind_run, Control.fromU8_asU8 hc, hoffset]
  rfl

theorem slice_append (a b c : Bytes) : slice (a ++ (b ++ c)) a.length (a.length + b.length) = b := by
  rw [slice, ← List.append_assoc, ← List.length_append, List.take_left, List.drop_left]

/-- What is written of a frame is read back, whatever follows it. -/
theorem decodeFrame_encode (hlen : f.frameLen ≤ 0x7FF) (hd : f.destination.Fits) (hs : f.source.Fits)
    (hc : f.control.Fits) (rest : Bytes) :
    decodeFrame (f.encode.data ++ rest) = .ok (f, f.encode.data.length) := by
  obtain ⟨-, hdata⟩ := encode_data hlen
  obtain ⟨-, hsegmented, hframeLen⟩ := format_read hlen
  have hchecked := f.length_checked
  have hsize : f.encode.data.length = 1 + f.frameLen + 1 := by
    rw [hdata]
    simp only [List.length_cons, List.length_append, length_leBytes, List.length_nil]
    omega
  obtain ⟨more, hmore⟩ := f.checked_header
  have hbytes : f.encode.data =
      flag :: (f.header.data ++ (more ++ (leBytes (fcs16 f.checked) ++ [flag]))) := by
    rw [hdata, hmore, List.append_assoc]
  have hformat : (decodeFormat (Reader.new (f.encode.data ++ rest))).1 = .ok f.format := by
    rw [hbytes, List.cons_append, List.append_assoc]
    exact decodeFormat_run hlen _
  have hheader := decodeHeader_run hd hs hc (more ++ (leBytes (fcs16 f.checked) ++ [flag]))
  rw [← hbytes] at hheader
  have hframe : slice (f.encode.data ++ rest) 0 (1 + f.frameLen + 1) = f.encode.data := by
    rw [slice, ← hsize, List.take_left, List.drop_zero]
  have hflag : (f.encode.data ++ rest).getD (1 + f.frameLen + 1 - 1) 0 = flag := by
    have hlast : f.encode.data ++ rest = (flag :: (f.checked ++ leBytes (fcs16 f.checked))) ++ flag :: rest := by
      rw [hdata]
      simp
    have hat : 1 + f.frameLen + 1 - 1 = (flag :: (f.checked ++ leBytes (fcs16 f.checked))).length := by
      rw [List.length_cons, List.length_append, length_leBytes]
      omega
    rw [hlast, hat, List.getD_eq_getElem?_getD, List.getElem?_append_right le_rfl, Nat.sub_self]
    rfl
  have hfcs : leAt f.encode.data (1 + f.checked.length) = fcs16 f.checked := by
    rw [hdata, Nat.add_comm]
    exact leAt_leBytes (flag :: f.checked) [flag] _
  have hbody : slice f.encode.data 1 (1 + f.checked.length) = f.checked := by
    rw [hdata]
    exact slice_append [flag] f.checked _
  unfold decodeFrame
  refine Result.bind_ok.mpr ⟨f.format, hformat, ?_⟩
  dsimp only
  rw [hsegmented, hframeLen, if_neg (by rw [List.length_append, hsize]; omega),
    if_neg (by rw [hflag]; decide), hframe]
  refine Result.bind_ok.mpr ⟨_, hheader, ?_⟩
  dsimp only
  have hat : 1 + f.frameLen + 1 - 3 = 1 + f.checked.length := by omega
  rw [hat, if_neg (by rw [hmore, List.length_append]; omega), hfcs, hbody, if_neg (by simp)]
  by_cases hempty : f.information.isEmpty = true
  · have hnone : f.checked = f.header.data := if_pos hempty
    rw [hnone, if_pos (by simp), hsize, ← List.isEmpty_iff.mp hempty]
  · have hinfo : f.checked = f.header.data ++ (leBytes (fcs16 f.header.data) ++ f.information) :=
      if_neg hempty
    have hstop : 1 + f.checked.length = 1 + f.header.data.length + 2 + f.information.length := by
      rw [hinfo, List.length_append, List.length_append, length_leBytes]
      omega
    have hall : f.encode.data = (flag :: f.header.data) ++ (leBytes (fcs16 f.header.data) ++
        (f.information ++ (leBytes (fcs16 f.checked) ++ [flag]))) := by
      rw [hdata, hinfo]
      simp
    have hhcs : leAt f.encode.data (1 + f.header.data.length) = fcs16 f.header.data := by
      rw [hall, Nat.add_comm]
      exact leAt_leBytes (flag :: f.header.data) _ _
    have hhead : slice f.encode.data 1 (1 + f.header.data.length) = f.header.data := by
      rw [hall]
      exact slice_append [flag] f.header.data _
    have hbytes : slice f.encode.data (1 + f.header.data.length + 2)
        (1 + f.header.data.length + 2 + f.information.length) = f.information := by
      have hcut := slice_append ((flag :: f.header.data) ++ leBytes (fcs16 f.header.data))
        f.information (leBytes (fcs16 f.checked) ++ [flag])
      rw [List.length_append, List.length_cons, length_leBytes, Nat.add_comm f.header.data.length 1,
        List.append_assoc, ← hall] at hcut
      exact hcut
    rw [if_neg (by rw [hstop, beq_iff_eq]; omega), if_neg (by omega), hhcs, hhead, if_neg (by simp),
      hstop, hbytes, hsize]

end Frame

/-- Writing bytes fails for want of room only. -/
theorem writeAll_error {cs : List Bytes} {w w' : SliceWriter} {e : Error}
    (h : SliceWriter.writeAll cs w = (.error e, w')) : ∃ n, e.kind = .bufferTooSmall n := by
  induction cs generalizing w with
  | nil => cases h
  | cons c cs ih =>
    by_cases hfits : w.pos + c.length ≤ w.buf.length
    · rw [SliceWriter.writeAll, Prog.bind_run_ok (SliceWriter.writeBytes_run hfits)] at h
      exact ih h
    · rw [SliceWriter.writeAll, Prog.bind_run_error (dif_neg hfits)] at h
      obtain ⟨he, -⟩ := Prod.mk.inj h
      exact ⟨_, by rw [← Except.error.inj he]⟩

/-- A frame whose fields fit is written in `encodedLen` bytes and read back from them, whatever follows;
it is refused for its length where more than 2047 bytes would stand between the flags, and only there. -/
theorem Frame.round_trip (f : Frame) (hd : f.destination.Fits) (hs : f.source.Fits)
    (hc : f.control.Fits) (w : SliceWriter) :
    (∀ w', SliceWriter.emit f.encode w = (.ok (), w') → ∃ bytes, w.Grown w' bytes ∧
      bytes.length = f.encodedLen ∧
      ∀ rest, decodeFrame (bytes ++ rest) = .ok (f, bytes.length)) ∧
    ((∃ offset w', SliceWriter.emit f.encode w = (.error ⟨.invalidLength, offset⟩, w')) ↔
      2047 < f.frameLen) := by
  by_cases hlen : 0x7FF < f.frameLen
  · have hrun : SliceWriter.emit f.encode w = (.error ⟨.invalidLength, 0⟩, w) := by
      rw [Frame.encode, if_pos hlen]
      rfl
    rw [hrun]
    refine ⟨fun w' h => ?_, fun _ => hlen, fun _ => ⟨_, _, rfl⟩⟩
    cases h
  · have hle := Nat.not_lt.mp hlen
    obtain ⟨hfault, hdata⟩ := f.encode_data hle
    constructor
    · intro w' hrun
      refine ⟨f.encode.data, .of_emit hrun, ?_, f.decodeFrame_encode hle hd hs hc⟩
      have := f.length_checked
      rw [hdata, f.encodedLen_eq]
      simp only [List.length_cons, List.length_append, length_leBytes, List.length_nil]
      omega
    · refine ⟨?_, fun h => absurd h hlen⟩
      rintro ⟨offset, w', hrun⟩
      rw [SliceWriter.emit, hfault, Prog.bind_run] at hrun
      rcases hwrite : SliceWriter.writeAll f.encode.chunks w with ⟨e | _, w₁⟩
      · obtain ⟨n, hn⟩ := writeAll_error hwrite
        rw [hwrite] at hrun
        obtain rfl := Except.error.inj (Prod.mk.inj hrun).1
        cases hn
      · rw [hwrite] at hrun
        cases hrun

/-- A frame with flags in its information. -/
def sampleFrame : Frame := ⟨true, .single 1, .quad 0x90 0x3FFF, .i 3 7 true, [flag, 0xE6, flag]⟩

theorem Frame.round_trip_sample : ∃ w' bytes,
    SliceWriter.emit sampleFrame.encode (SliceWriter.new (List.replicate 24 0)) = (.ok (), w') ∧
    (SliceWriter.new (List.replicate 24 0)).Grown w' bytes ∧ bytes.length = 17 ∧
    decodeFrame (bytes ++ [flag, flag]) = .ok (sampleFrame, bytes.length) := by
  obtain ⟨w', hrun⟩ := SliceWriter.emit_fits (e := sampleFrame.encode)
    (w := SliceWriter.new (List.replicate 24 0)) (by decide +kernel) (by decide +kernel)
  obtain ⟨bytes, hgrown, hlen, hdecode⟩ := (Frame.round_trip sampleFrame
    (show (1 : UInt8) < 0x80 by decide) ⟨by decide, by decide⟩ ⟨by decide, by decide⟩ _).1 w' hrun
  exact ⟨w', bytes, hrun, hgrown, hlen, hdecode _⟩

end Dlms.Hdlc
