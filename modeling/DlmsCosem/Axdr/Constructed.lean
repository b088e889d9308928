import DlmsCosem.Axdr.Levels
import DlmsCosem.Axdr.Shortest

/-!
# Values that a program holds

A value comes from a decoder, from the iterator of a sequence, or from a public constructor
(`Data.Public`). What a decoder gave is read back from its encoding. `CompactArray::from_parts` allows
a description as many levels as stand-alone data has, and the decoder allows it one fewer, since the
array is a level itself: a description that takes all of them is written and not read back
(`Data.reads_back_iff`).
-/

namespace Dlms

/-- `BitStr::new`. -/
def BitStr.new (bits : Nat) (bytes : Bytes) : Result BitStr :=
  if bytes.length ≠ (bits + 7) / 8 then Error.fail .invalidLength 0 else .ok { bits, bytes }

/-- `from_parts`. The description is used up. -/
def CompactArray.fromParts (desc contents : Bytes) : Result CompactArray := do
  let () ← Read.fromBytes (TypeDesc.skipAt maxDepth) desc
  return { desc, contents, descBase := 0, contentsBase := 0, left := maxDepth }

namespace Data

/-- What a program can hold. A sequence is only taken out of a decoded value, and may be put under the
other of its two tags. A slice is shorter than `2 ^ 63` bytes. -/
inductive Public : Data → Prop
  | decoded {left : Nat} {d : Data} : left ≤ maxDepth → d.Decoded left → Public d
  | array {s : Seq} : Public (.structure s) → Public (.array s)
  | structure {s : Seq} : Public (.array s) → Public (.structure s)
  | scalar {d : Data} : d.tag.fixedLen ≠ none → Public d
  | string {d : Data} {bs : Bytes} : d.asBytes = some bs → bs.length < 2 ^ 63 → Public d
  | bitString {bits : Nat} {bytes : Bytes} {b : BitStr} : bits < 2 ^ 64 → BitStr.new bits bytes = .ok b →
      Public (.bitString b)
  | compactArray {desc contents : Bytes} {c : CompactArray} : contents.length < 2 ^ 63 →
      CompactArray.fromParts desc contents = .ok c → Public (.compactArray c)

/-- The encoding is read back: all of it, with the same tag and contents, which encode to it again. -/
def ComesBack (d : Data) : Prop :=
  ∃ e, Read.fromBytes decode d.encode.data = .ok e ∧ e.Alike d ∧ e.encode = d.encode

theorem ComesBack.of_takes {d : Data} (h : Takes decode d.encode.data (d.Alike ·)) : d.ComesBack := by
  obtain ⟨e, he, hd⟩ := h.fromBytes
  exact ⟨e, he, hd.symm, hd.symm.encode⟩

/-- What is read back from its encoding is read back wherever it stands. -/
theorem ComesBack.takes {d : Data} (h : d.ComesBack) : Takes decode d.encode.data (d.Alike ·) := by
  obtain ⟨e, he, halike, -⟩ := h
  obtain ⟨r, hr, hend⟩ := Read.fromBytes_ok he
  obtain ⟨bs, tail, hc, ht⟩ := decodeAt_echoes maxDepth _ _ _ hr
  have htail : tail = [] := hc.after.symm.trans hend
  have hrest : d.encode.data = bs ++ tail := hc.rest
  rw [htail, List.append_nil] at hrest
  rw [hrest]
  exact ht.mono fun f hf => halike.symm.trans hf.1.alike

theorem Encoded.comesBack {left : Nat} {d : Data} (h : d.Encoded left) (hle : left ≤ maxDepth) :
    d.ComesBack := by
  obtain ⟨e, he, ht⟩ := h.takes.through (decodeAt_mono hle)
  exact .of_takes (ht.mono fun _ hf => he.alike.trans hf)

theorem Decoded.encoded {left : Nat} {d : Data} (h : d.Decoded left) : d.Encoded left := by
  obtain ⟨r, r', h⟩ := h
  exact (decodeAt_echoes left).holds h

/-! ## What is made by hand -/

/-- A number or a date. -/
theorem encoded_scalar {left : Nat} {d : Data} (h : d.tag.fixedLen ≠ none) : d.Encoded (left + 1) := by
  cases d with
  | null | dontCare => exact .of rfl rfl (.pure (.refl _))
  | boolean v =>
    exact .of rfl rfl ((Takes.byte _).map fun b h => by
      rw [← h]
      exact Same.of_eq boolean _ (Bool.toUInt8_bne_zero v).symm)
  | bcd v | integer v | deltaInteger v => exact .of rfl rfl ((Takes.i8 v).map (Same.of_eq _))
  | long v | deltaLong v => exact .of rfl rfl ((Takes.i16 v).map (Same.of_eq _))
  | unsigned v | enum v | deltaUnsigned v => exact .of rfl rfl ((Takes.byte v).map (Same.of_eq _))
  | longUnsigned v | deltaLongUnsigned v => exact .of rfl rfl ((Takes.u16 v).map (Same.of_eq _))
  | doubleLong v | deltaDoubleLong v => exact .of rfl rfl ((Takes.i32 v).map (Same.of_eq _))
  | doubleLongUnsigned v | float32 v | deltaDoubleLongUnsigned v =>
    exact .of rfl rfl ((Takes.u32 v).map (Same.of_eq _))
  | long64 v => exact .of rfl rfl ((Takes.i64 v).map (Same.of_eq _))
  | long64Unsigned v | float64 v => exact .of rfl rfl ((Takes.u64 v).map (Same.of_eq _))
  | dateTime v =>
    exact .of rfl rfl ((Takes.bytes (n := 12) rfl).map fun b h => by
      rw [← h, DateTime.fromBytes_toBytes]
      exact .refl _)
  | date v =>
    exact .of rfl rfl ((Takes.bytes (n := 5) rfl).map fun b h => by
      rw [← h, Date.fromBytes_toBytes]
      exact .refl _)
  | time v =>
    exact .of rfl rfl ((Takes.bytes (n := 4) rfl).map fun b h => by
      rw [← h]
      exact .refl _)
  | _ => exact absurd rfl h

theorem encoded_string {left : Nat} {d : Data} {bs : Bytes} (h : d.asBytes = some bs)
    (hlen : bs.length < 2 ^ 32) : d.Encoded (left + 1) := by
  have hf := Emit.counted_fault hlen bs
  cases d with
  | octetString v | visibleString v | utf8String v =>
    obtain rfl := Option.some.inj h
    exact .of rfl hf ((Takes.lengthPrefixed hlen).map (Same.of_eq _))
  | _ => cases h

theorem encoded_bitString {left : Nat} {b : BitStr} (h : b.bytes.length = (b.bits + 7) / 8)
    (hbits : b.bits < 2 ^ 32) : (bitString b).Encoded (left + 1) := by
  refine .of rfl (Emit.counted_fault hbits _) (.counted hbits ?_)
  exact (Takes.taken h).map fun _ h => by subst h; exact .refl _

end Data

theorem Seq.Encoded.array {left : Nat} {s : Seq} (h : s.Encoded left) :
    (Data.array s).Encoded (left + 1) :=
  .of rfl h.takes.1 (h.takes.2.map fun _ h => congrArg Data.array h)

theorem Seq.Encoded.structure {left : Nat} {s : Seq} (h : s.Encoded left) :
    (Data.structure s).Encoded (left + 1) :=
  .of rfl h.takes.1 (h.takes.2.map fun _ h => congrArg Data.structure h)

theorem CompactArray.Encoded.compactArray {left : Nat} {c : CompactArray} (h : c.Encoded left) :
    (Data.compactArray c).Encoded (left + 1) :=
  .of rfl h.takes.1 (h.takes.2.map fun _ h => congrArg Data.compactArray h)

/-- What a counted encoder counts. -/
theorem Emit.length_lt {n : Nat} {e : Emit} (hf : (Emit.length n ++ e).fault = none) (h : n < 2 ^ 64) :
    n < 2 ^ 32 :=
  Ber.writeLen_lt (Emit.append_fault_eq_none.mp hf).1 h

theorem CompactArray.fromParts_ok {desc contents : Bytes} {c : CompactArray}
    (h : fromParts desc contents = .ok c) : c = ⟨desc, contents, 0, 0, maxDepth⟩ := by
  obtain ⟨⟨⟩, -, h⟩ := Result.bind_ok.mp h
  exact (Except.ok.inj h).symm

namespace Data

theorem contents_fault {d : Data} (h : d.encode.fault = none) : d.contents.fault = none := by
  rwa [encode, Emit.append_fault_of_none (Emit.u8_fault _)] at h

/-! ## Which values are read back -/

/-- What a decoder gave is read back. -/
theorem Decoded.comesBack {left : Nat} {d : Data} (h : d.Decoded left) (hle : left ≤ maxDepth) :
    d.ComesBack := h.encoded.comesBack hle

/-- A sequence was decoded, in one level. -/
theorem Public.seq {d : Data} (h : d.Public) {s : Seq} (hs : d.seq? = some s) :
    ∃ left < maxDepth, s.Encoded left := by
  induction h with
  | @decoded left d hle hd =>
    obtain ⟨r, r', hd⟩ := hd
    cases left with
    | zero => cases hd
    | succ left => exact ⟨left, hle, ((decodeAt_checked left).of_run hd).seq s hs⟩
  | array _ ih => exact ih hs
  | «structure» _ ih => exact ih hs
  | @scalar d htag =>
    cases d with
    | array | «structure» => exact absurd rfl htag
    | _ => cases hs
  | @string d _ hb _ =>
    cases d with
    | array | «structure» => cases hb
    | _ => cases hs
  | bitString _ _ => cases hs
  | compactArray _ _ => cases hs

/-- The description of a compact array nests no further than the decoder goes after the tag of the
array. -/
def Described (d : Data) : Prop :=
  ∀ c, d = .compactArray c → Whole (TypeDesc.skipAt (maxDepth - 1)) c.desc

/-- A compact array that is read back is described as the decoder allows. -/
theorem ComesBack.described {d : Data} (h : d.ComesBack) : d.Described := by
  rintro c rfl
  obtain ⟨e, he, halike, -⟩ := h
  obtain ⟨c', rfl, hc⟩ := halike.of_compactArray
  obtain ⟨r, hr, -⟩ := Read.fromBytes_ok he
  have henc := ((decodeAt_checked (maxDepth - 1)).of_run hr).compactArray c' rfl
  have hdesc : c'.erased.desc = c.erased.desc := congrArg CompactArray.desc hc
  change c'.desc = c.desc at hdesc
  rw [← hdesc]
  exact .of_takes henc.desc

theorem Described.comesBack {c : CompactArray} (h : (compactArray c).Described)
    (hlen : c.contents.length < 2 ^ 32) : (compactArray c).ComesBack := by
  have hdesc := (h c rfl).takes (TypeDesc.parseAt_echoes (maxDepth - 1)).void
  have henc : CompactArray.Encoded (maxDepth - 1) { c with left := maxDepth - 1 } :=
    ⟨by decide, rfl, hlen, hdesc⟩
  exact .of_takes (henc.compactArray.takes.mono fun _ hs => hs.alike)

theorem Public.comesBack {d : Data} (h : d.Public) (hf : d.encode.fault = none) (hd : d.Described) :
    d.ComesBack := by
  have hcontents := contents_fault hf
  cases h with
  | decoded hle hd => exact hd.comesBack hle
  | array h =>
    obtain ⟨left, hlt, hs⟩ := h.seq rfl
    exact hs.array.comesBack hlt
  | «structure» h =>
    obtain ⟨left, hlt, hs⟩ := h.seq rfl
    exact hs.structure.comesBack hlt
  | scalar htag => exact Encoded.comesBack (encoded_scalar htag) (le_refl maxDepth)
  | @string d bs hbs hlen =>
    refine Encoded.comesBack (encoded_string hbs ?_) (le_refl maxDepth)
    cases d with
    | octetString v | visibleString v | utf8String v =>
      obtain rfl := Option.some.inj hbs
      exact Emit.length_lt hcontents (by omega)
    | _ => cases hbs
  | @bitString bits bytes b hbits hnew =>
    unfold BitStr.new at hnew
    split at hnew
    · cases hnew
    · rename_i hlen
      obtain rfl := Except.ok.inj hnew
      exact Encoded.comesBack (encoded_bitString (not_not.mp hlen) (Emit.length_lt hcontents hbits))
        (le_refl maxDepth)
  | @compactArray desc contents c hlen hnew =>
    obtain rfl := CompactArray.fromParts_ok hnew
    refine hd.comesBack ?_
    have hbody : (Emit.length contents.length ++ Emit.bytes contents).fault = none := by
      have h := hcontents
      rwa [Data.contents, CompactArray.encodeBody, Emit.append_fault_of_none (Emit.bytes_fault _)] at h
    exact Emit.length_lt hbody (hlen.trans (by norm_num))

/-- A value that is written is read back, all of it and the same, if and only if it is no compact array
whose description takes every level that there is. Bytes with their lengths in the shortest form and 0
and 1 for booleans are written back as they were read. -/
theorem reads_back_iff (d : Data) :
    (d.Public → d.encode.fault = none → (d.ComesBack ↔ d.Described)) ∧
      ∀ b, Read.fromBytes decode b = .ok d → Whole (skipShortest maxDepth) b →
        d.encode.fault = none ∧ d.encode.data = b := by
  refine ⟨fun h hf => ⟨ComesBack.described, h.comesBack hf⟩, fun b hd hw => ?_⟩
  obtain ⟨r, hr, hend⟩ := Read.fromBytes_ok hd
  obtain ⟨⟨⟩, hw⟩ := hw
  obtain ⟨q, hq, -⟩ := Read.fromBytes_ok hw
  obtain ⟨hf, hc⟩ := decodeAt_spells maxDepth hr hq
  have hrest : b = d.encode.data ++ [] := by
    rw [← hend]
    exact hc.rest
  exact ⟨hf, by rw [hrest, List.append_nil]⟩

/-- A description of fifteen structures and a number. -/
def deepDescription : Bytes := (List.replicate 15 [0x02, 0x01]).flatten ++ [0x11]

/-- A compact array that is made and written, and not read back. -/
theorem reads_back_fails : ∃ c, CompactArray.fromParts deepDescription [0x07] = .ok c ∧
    (compactArray c).Public ∧ (compactArray c).encode.fault = none ∧ ¬ (compactArray c).ComesBack := by
  have hnew : CompactArray.fromParts deepDescription [0x07] =
      .ok ⟨deepDescription, [0x07], 0, 0, maxDepth⟩ := by decide +kernel
  refine ⟨_, hnew, .compactArray (by decide) hnew, by decide +kernel, fun h => ?_⟩
  exact absurd (h.described _ rfl) (by decide +kernel)

/-- One level less is read back. -/
theorem reads_back_iff_sample :
    (compactArray ⟨(List.replicate 14 [0x02, 0x01]).flatten ++ [0x11], [0x07], 0, 0, maxDepth⟩).ComesBack ∧
      (array ⟨1, [0x03, 0x01], 2, 15⟩).encode.data = [0x01, 0x01, 0x03, 0x01] := by
  have hnew : CompactArray.fromParts ((List.replicate 14 [0x02, 0x01]).flatten ++ [0x11]) [0x07] =
      .ok ⟨(List.replicate 14 [0x02, 0x01]).flatten ++ [0x11], [0x07], 0, 0, maxDepth⟩ := by
    decide +kernel
  refine ⟨((reads_back_iff _).1 (.compactArray (by decide) hnew) (by decide +kernel)).mpr ?_, ?_⟩
  · rintro c ⟨⟩
    decide +kernel
  · exact ((reads_back_iff _).2 [0x01, 0x01, 0x03, 0x01] (by decide) (by decide +kernel)).2

end Data

end Dlms
