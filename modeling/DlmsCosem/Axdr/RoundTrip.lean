import DlmsCosem.Axdr.Data
import DlmsCosem.Codec.Ber
import DlmsCosem.Codec.Echo

/-!
# Values and where they stood

The elements of an array stay encoded, with the place they were read at (`base`). That place is for
error offsets only: `Same` is equality but for it. A value is the same wherever its bytes stand
(`decode_echoes`), and is read back from its own encoding (`Data.decode_encode`).
-/

namespace Dlms

/-- A walk ahead and the bytes that it took. -/
theorem Echoes.probe {γ δ : Type} {T : γ → δ → Prop} {f f' : Read Unit} {k : Bytes → Read γ}
    {k' : Bytes → Read δ} (hf : Echoes Eq f f')
    (hk : ∀ raw, Takes f' raw (fun _ => True) → Echoes T (k raw) (k' raw)) :
    Echoes T (Read.probe f >>= fun used => Read.take used >>= k)
      (Read.probe f' >>= fun used => Read.take used >>= k') := by
  intro r c r'' h
  obtain ⟨used, r₁, hp, h⟩ := Prog.bind_ok h
  unfold Read.probe at hp
  match hrun : f (Reader.withBase r.rest r.offset) with
  | (.error e, inner) => rw [hrun] at hp; cases hp
  | (.ok (), inner) =>
    rw [hrun] at hp
    obtain ⟨rfl, rfl⟩ : inner.pos = used ∧ r = r₁ := by simpa using hp
    obtain ⟨raw, tail, hc, ht⟩ := hf _ _ _ hrun
    have ht : Takes f' raw fun _ => True := ht.mono fun _ _ => trivial
    have hpos : inner.pos = raw.length := by simpa using hc.advanced.pos
    have hrest : r.rest = raw ++ tail := hc.rest
    obtain ⟨raw', r₂, htake, h⟩ := Prog.bind_ok h
    obtain ⟨hraw, -, hadv⟩ := Read.take_ok htake
    obtain rfl : raw' = raw := by rw [hraw, hrest, hpos, List.take_left]
    obtain ⟨bs, tail', hc', htk⟩ := hk raw' ht _ _ _ h
    have hc₁ : r.Consumed raw' (bs ++ tail') r₂ := by
      refine ⟨?_, by rw [← hpos]; exact hadv⟩
      rw [← hc'.rest, hadv.rest, hrest, hpos, List.drop_left]
    refine ⟨raw' ++ bs, tail', hc₁.trans hc', fun q tail₂ hq => ?_⟩
    -- The same walk at the other place takes the same bytes.
    rw [List.append_assoc] at hq
    obtain ⟨⟨⟩, inner', hrun', -, hadv'⟩ := ht (Reader.withBase q.rest q.offset) (bs ++ tail₂) hq
    have hpos' : inner'.pos = raw'.length := by simpa using hadv'.pos
    have hprobe : Read.probe f' q = (.ok raw'.length, q) := by
      rw [Read.probe, hrun']
      simp only [hpos']
    rw [Prog.bind_run_ok hprobe]
    exact ((Takes.take raw').bind fun a ha => by subst ha; exact htk) q tail₂
      (by rw [hq, List.append_assoc])

/-! ## The same value at another place -/

/-- Without the place it was read at. -/
def Seq.unplaced (s : Seq) : Seq := { s with base := 0 }

def CompactArray.unplaced (c : CompactArray) : CompactArray :=
  { c with descBase := 0, contentsBase := 0 }

namespace Data

def unplaced : Data → Data
  | array s => array s.unplaced
  | .structure s => .structure s.unplaced
  | compactArray c => compactArray c.unplaced
  | d => d

/-- The same value, wherever it was read. -/
def Same (d e : Data) : Prop := d.unplaced = e.unplaced

theorem Same.refl (d : Data) : d.Same d := rfl

theorem Same.symm {d e : Data} (h : d.Same e) : e.Same d := Eq.symm h

theorem Same.trans {d e f : Data} (h : d.Same e) (h' : e.Same f) : d.Same f := Eq.trans h h'

@[simp] theorem encode_unplaced (d : Data) : d.unplaced.encode = d.encode := by
  cases d <;> rfl

/-- The place is not in the encoding. -/
theorem Same.encode {d e : Data} (h : d.Same e) : d.encode = e.encode := by
  rw [← encode_unplaced d, ← encode_unplaced e, h]

theorem Same.null {d e : Data} (h : d.Same e) : d = .null ↔ e = .null := by
  cases d <;> cases e <;> simp_all [Same, unplaced]

end Data

/-! ## Decoders echo themselves -/

/-- What is parsed with few levels left is parsed with more. -/
theorem TypeDesc.parseAt_mono {left left' : Nat} (h : left ≤ left') :
    Echoes Eq (parseAt left) (parseAt left') := by
  induction left generalizing left' with
  | zero => exact .fail
  | succ left ih =>
    obtain ⟨k, rfl⟩ : ∃ k, left' = k + 1 := ⟨left' - 1, by omega⟩
    have ih := @ih k (by omega)
    refine Echoes.u8.andThen fun b => ?_
    cases DataTag.fromU8 b with
    | none => exact .errBack
    | some tag =>
      cases tag <;> first
        | exact .errBack
        | exact Echoes.u16.andThen fun len => .probe ih.void fun raw _ => .pure rfl
        | exact Echoes.length.andThen fun n => .probe (ih.void.times n) fun raw _ => .pure rfl
        | exact .pure rfl

theorem TypeDesc.parseAt_echoes (left : Nat) : Echoes Eq (parseAt left) (parseAt left) :=
  parseAt_mono (Nat.le_refl left)

/-- An echo of values of which something is known. -/
theorem Echoes.known {α β : Type} {S : α → β → Prop} {P : α → Prop} {m : Read α} {m' : Read β}
    (h : Echoes S m m') (hp : ∀ r a r', m r = (.ok a, r') → P a) :
    Echoes (fun a b => S a b ∧ P a) m m' := fun r a r' hr =>
  let ⟨bs, tail, hc, ht⟩ := h r a r' hr
  ⟨bs, tail, hc, ht.mono fun _ hs => ⟨hs, hp r a r' hr⟩⟩

theorem Read.length_lt {r r' : Reader} {n : Nat} (h : Read.length r = (.ok n, r')) : n < 2 ^ 32 := by
  obtain ⟨first, r₁, -, h⟩ := Prog.bind_ok h
  split at h
  · have hlt := first.toNat_lt
    simp only [Prog.pure_run, Prod.mk.injEq, Except.ok.injEq] at h
    omega
  · dsimp only at h
    split at h
    · cases h
    · rename_i hle
      obtain ⟨bs, r₂, ht, h⟩ := Prog.bind_ok h
      simp only [Prog.pure_run, Prod.mk.injEq, Except.ok.injEq] at h
      have hlen := Read.length_take ht
      have hlt := beNat_lt bs
      simp only [Bool.or_eq_true, beq_iff_eq, decide_eq_true_eq, not_or, Nat.not_lt] at hle
      have hpow : 256 ^ bs.length ≤ 256 ^ 4 :=
        Nat.pow_le_pow_right (by norm_num) (by rw [hlen]; exact hle.2)
      omega

/-- A length, which is read back however it is encoded. -/
theorem Echoes.lengthLt : Echoes (fun m n => m = n ∧ m < 2 ^ 32) Read.length Read.length :=
  Echoes.length.known fun _ _ _ => Read.length_lt

theorem Takes.length {n : Nat} (h : n < 2 ^ 32) : Takes Read.length (Emit.length n).data (n = ·) :=
  .ofReads (Ber.readLen_writeLen h).2

theorem Emit.counted_fault {n : Nat} (h : n < 2 ^ 32) (bs : Bytes) :
    (Emit.length n ++ Emit.bytes bs).fault = none := by
  rw [Emit.append_fault_of_none (Emit.length_sized h).fault]
  rfl

/-- A length and what it counts. -/
theorem Takes.counted {n : Nat} {β : Type} {k : Nat → Read β} {bs : Bytes} {Q : β → Prop}
    (h : n < 2 ^ 32) (hk : Takes (k n) bs Q) :
    Takes (Read.length >>= k) (Emit.length n ++ Emit.bytes bs).data Q := by
  rw [Emit.append_data (Emit.length_sized h).fault, Emit.bytes_data]
  exact (Takes.length h).bind fun a ha => by subst ha; exact hk

/-- A walk over bytes that it takes, and these bytes. -/
theorem Takes.probe {f : Read Unit} {raw : Bytes} (h : Takes f raw fun _ => True) {β : Type}
    {k : Bytes → Read β} {Q : β → Prop} {cs : Bytes} (hk : Takes (k raw) cs Q) :
    Takes (Read.probe f >>= fun used => Read.take used >>= k) (raw ++ cs) Q := by
  intro r tail hr
  rw [List.append_assoc] at hr
  obtain ⟨⟨⟩, inner, hrun, -, hadv⟩ := h (Reader.withBase r.rest r.offset) (cs ++ tail) hr
  have hpos : inner.pos = raw.length := by simpa using hadv.pos
  have hprobe : Read.probe f r = (.ok raw.length, r) := by
    rw [Read.probe, hrun]
    simp only [hpos]
  rw [Prog.bind_run_ok hprobe]
  exact ((Takes.take raw).bind fun a ha => by subst ha; exact hk) r tail
    (by rw [hr, List.append_assoc])

/-! ## Compact arrays -/

namespace CompactArray

/-- What a compact array of a decoder satisfies. -/
structure Encoded (left : Nat) (c : CompactArray) : Prop where
  left_ne : left ≠ 0
  left_eq : c.left = left
  contents_lt : c.contents.length < 2 ^ 32
  desc : Takes (TypeDesc.skipAt left) c.desc fun _ => True

theorem decodeBody_echoes (left : Nat) :
    Echoes (fun c d => c.unplaced = d.unplaced ∧ c.Encoded left) (decodeBody left)
      (decodeBody left) := by
  unfold decodeBody
  split
  · exact .fail
  · rename_i h0
    refine Echoes.offset.bind fun o o' _ => .probe (TypeDesc.parseAt_echoes left).void
      fun desc hdesc => Echoes.lengthLt.bind fun n n' ⟨h, hn⟩ => ?_
    subst h
    refine Echoes.offset.bind fun p p' _ =>
      ((Echoes.take n).known fun _ _ _ => Read.length_take).map fun contents _ ⟨h, hlen⟩ => ?_
    subst h
    exact ⟨rfl, h0, rfl, by rw [hlen]; exact hn, hdesc⟩

/-- A compact array is read back. -/
theorem Encoded.takes {left : Nat} {c : CompactArray} (h : c.Encoded left) :
    c.encodeBody.fault = none ∧
      Takes (decodeBody left) c.encodeBody.data fun d => c.unplaced = d.unplaced := by
  obtain ⟨h0, rfl, hn, hdesc⟩ := h
  refine ⟨?_, ?_⟩
  · rw [encodeBody, Emit.append_fault_of_none (Emit.bytes_fault _)]
    exact Emit.counted_fault hn _
  · rw [encodeBody, Emit.append_data (Emit.bytes_fault _), Emit.bytes_data, decodeBody, if_neg h0]
    refine .atOffset fun descBase => hdesc.probe (.counted hn (.atOffset fun contentsBase => ?_))
    exact (Takes.take c.contents).map fun _ h => by subst h; rfl

end CompactArray

theorem Data.skip_echoes (left : Nat) : Echoes Eq (Data.skip left) (Data.skip left) := by
  induction left with
  | zero => exact .fail
  | succ left ih =>
    refine Echoes.u8.andThen fun b => ?_
    cases DataTag.fromU8 b with
    | none => exact .errBack
    | some tag =>
      cases tag <;> first
        | exact .skip _
        | exact Echoes.length.andThen fun n => ih.times n
        | exact Echoes.length.andThen fun n => .skip _
        | exact (CompactArray.decodeBody_echoes left).void

/-! ## Sequences -/

/-- What a sequence of a decoder satisfies. -/
structure Seq.Encoded (left : Nat) (s : Seq) : Prop where
  left_eq : s.left = left
  count_lt : s.count < 2 ^ 32
  raw : Takes (Prog.times s.count (Data.skip left)) s.raw fun _ => True

theorem Data.decodeSeq_echoes (left : Nat) :
    Echoes (fun s t => s.unplaced = t.unplaced ∧ s.Encoded left) (decodeSeq left) (decodeSeq left) := by
  refine Echoes.lengthLt.bind fun n n' ⟨h, hn⟩ => ?_
  subst h
  exact Echoes.offset.bind fun o o' _ => .probe ((skip_echoes left).times n) fun raw hraw =>
    .pure ⟨rfl, rfl, hn, hraw⟩

/-- A sequence is read back. -/
theorem Seq.Encoded.takes {left : Nat} {s : Seq} (h : s.Encoded left) :
    (Emit.length s.count ++ Emit.bytes s.raw).fault = none ∧
      Takes (Data.decodeSeq left) (Emit.length s.count ++ Emit.bytes s.raw).data
        fun t => s.unplaced = t.unplaced := by
  obtain ⟨rfl, hn, hraw⟩ := h
  refine ⟨Emit.counted_fault hn _, .counted hn (.atOffset fun base => ?_)⟩
  have h := hraw.probe (k := fun raw => pure { count := s.count, raw, base, left := s.left })
    (Q := fun t : Seq => s.unplaced = t.unplaced) (.pure rfl)
  rwa [List.append_nil] at h

/-! ## Scalars -/

namespace Takes

theorem u64 (v : UInt64) : Takes Read.u64 (Emit.u64 v).data (v = ·) := by
  have h := (Takes.take (beBytes 8 v.toNat)).map (g := fun bs => UInt64.ofNat (beNat bs))
    (Q := (v = ·)) fun bs h => by
      have hv := Nat.mod_eq_of_lt (b := 256 ^ 8) v.toNat_lt
      rw [← h, beNat_beBytes, hv, UInt64.ofNat_toNat]
  rw [length_beBytes] at h
  rwa [Emit.u64, Emit.bytes_data]

theorem u32 (v : UInt32) : Takes Read.u32 (Emit.u32 v).data (v = ·) := by
  rw [Emit.u32, Emit.bytes_data]
  exact .ofReads (.u32 v)

theorem u16 (v : UInt16) : Takes Read.u16 (Emit.u16 v).data (v = ·) := by
  rw [Emit.u16, Emit.bytes_data]
  exact .ofReads (.u16 v)

theorem byte (v : UInt8) : Takes Read.u8 (Emit.u8 v).data (v = ·) := by
  rw [Emit.u8_data]
  exact .u8 v

theorem i8 (v : Int8) : Takes Read.i8 (Emit.u8 v.toUInt8).data (v = ·) :=
  (byte v.toUInt8).map fun _ h => by rw [← h]; simp

theorem i16 (v : Int16) : Takes Read.i16 (Emit.u16 v.toUInt16).data (v = ·) :=
  (u16 v.toUInt16).map fun _ h => by rw [← h]; simp

theorem i32 (v : Int32) : Takes Read.i32 (Emit.u32 v.toUInt32).data (v = ·) :=
  (u32 v.toUInt32).map fun _ h => by rw [← h]; simp

theorem i64 (v : Int64) : Takes Read.i64 (Emit.u64 v.toUInt64).data (v = ·) :=
  (u64 v.toUInt64).map fun _ h => by rw [← h]; simp

theorem taken {bs : Bytes} {n : Nat} (h : bs.length = n) : Takes (Read.take n) bs (bs = ·) :=
  .ofReads (.take h)

theorem bytes {bs : Bytes} {n : Nat} (h : bs.length = n) :
    Takes (Read.take n) (Emit.bytes bs).data (bs = ·) := by
  rw [Emit.bytes_data]
  exact taken h

theorem lengthPrefixed {bs : Bytes} (h : bs.length < 2 ^ 32) :
    Takes Read.lengthPrefixed (Emit.lengthPrefixed bs).data (bs = ·) :=
  .counted h (.take bs)

end Takes

theorem Read.lengthPrefixed_lt {r r' : Reader} {bs : Bytes}
    (h : Read.lengthPrefixed r = (.ok bs, r')) : bs.length < 2 ^ 32 := by
  obtain ⟨n, r₁, hn, h⟩ := Prog.bind_ok h
  rw [Read.length_take h]
  exact Read.length_lt hn

theorem Bool.toUInt8_bne_zero (b : Bool) : (b.toUInt8 != 0) = b := by
  cases b <;> rfl

theorem Date.fromBytes_toBytes (d : Date) : Date.fromBytes d.toBytes = d := by
  have hy := Nat.mod_eq_of_lt (b := 256 ^ 2) d.year.toNat_lt
  have h2 : (d.toBytes).take 2 = beBytes 2 d.year.toNat := rfl
  rw [Date.fromBytes, h2, beNat_beBytes, hy, UInt16.ofNat_toNat]
  rfl

theorem DateTime.fromBytes_toBytes (d : DateTime) : DateTime.fromBytes d.toBytes = d := by
  have hy := Nat.mod_eq_of_lt (b := 256 ^ 2) d.year.toNat_lt
  have hd := Nat.mod_eq_of_lt (b := 256 ^ 2) d.deviation.toUInt16.toNat_lt
  have h2 : (d.toBytes).take 2 = beBytes 2 d.year.toNat := rfl
  have h9 : ((d.toBytes).drop 9).take 2 = beBytes 2 d.deviation.toUInt16.toNat := rfl
  rw [DateTime.fromBytes, h2, h9, beNat_beBytes, beNat_beBytes, hy, hd, UInt16.ofNat_toNat,
    UInt16.ofNat_toNat]
  rfl

/-! ## Values -/

namespace Data

/-- The value is read back from its own encoding, but for the place. -/
structure Encoded (left : Nat) (d : Data) : Prop where
  fault : d.encode.fault = none
  takes : Takes (decodeAt left) d.encode.data (d.Same ·)

/-- `k` is what the decoder does once it has the tag. -/
theorem Encoded.of {left : Nat} {k : UInt8 → Read Data} {d : Data}
    (hk : decodeAt left = Read.u8 >>= k) (hf : d.contents.fault = none)
    (h : Takes (k d.tag.asU8) d.contents.data (d.Same ·)) : d.Encoded left := by
  refine ⟨?_, ?_⟩
  · rw [encode, Emit.append_fault_of_none (Emit.u8_fault _)]
    exact hf
  · rw [encode, Emit.append_data (Emit.u8_fault _), Emit.u8_data, hk]
    exact (Takes.u8 _).bind fun b hb => by subst hb; exact h

/-- A value whose contents are one number, string or date. -/
theorem scalar_echoes {α : Type} {left : Nat} {k : UInt8 → Read Data} {m : Read α} (g : α → Data)
    (hk : decodeAt left = Read.u8 >>= k) (hm : Echoes Eq m m)
    (hg : ∀ r v r', m r = (.ok v, r') → (g v).contents.fault = none ∧
      Takes (k (g v).tag.asU8) (g v).contents.data ((g v).Same ·)) :
    Echoes (fun d e => d.Same e ∧ d.Encoded left) (m >>= fun v => pure (g v))
      (m >>= fun v => pure (g v)) :=
  (hm.known (P := fun v => (g v).contents.fault = none ∧
    Takes (k (g v).tag.asU8) (g v).contents.data ((g v).Same ·)) hg).map
    fun v w ⟨h, hf, ht⟩ => by subst h; exact ⟨.refl _, .of hk hf ht⟩

theorem Same.of_eq {α : Type} (g : α → Data) {v : α} : ∀ w, v = w → (g v).Same (g w) :=
  fun w h => by subst h; exact .refl _

/-- A value whose contents are a string with its length. -/
theorem string_echoes {left : Nat} {k : UInt8 → Read Data} (g : Bytes → Data)
    (hk : decodeAt left = Read.u8 >>= k) (hc : ∀ bs, (g bs).contents = Emit.lengthPrefixed bs)
    (hg : ∀ bs, k (g bs).tag.asU8 = (Read.lengthPrefixed >>= fun bs => pure (g bs))) :
    Echoes (fun d e => d.Same e ∧ d.Encoded left) (Read.lengthPrefixed >>= fun bs => pure (g bs))
      (Read.lengthPrefixed >>= fun bs => pure (g bs)) := by
  refine scalar_echoes g hk .lengthPrefixed fun r bs r' h => ?_
  have hlen := Read.lengthPrefixed_lt h
  rw [hc, hg]
  exact ⟨Emit.counted_fault hlen bs, (Takes.lengthPrefixed hlen).map (Same.of_eq g)⟩

theorem decodeAt_echoes (left : Nat) :
    Echoes (fun d e => d.Same e ∧ d.Encoded left) (decodeAt left) (decodeAt left) := by
  cases left with
  | zero => exact .fail
  | succ left =>
    refine Echoes.u8.andThen fun b => ?_
    cases DataTag.fromU8 b with
    | none => exact .errBack
    | some tag =>
      cases tag with
      | nullData => exact .pure ⟨.refl _, .of rfl rfl (.pure (.refl _))⟩
      | dontCare => exact .pure ⟨.refl _, .of rfl rfl (.pure (.refl _))⟩
      | array =>
        refine (decodeSeq_echoes left).map fun s t ⟨h, hs⟩ => ⟨congrArg array h, ?_⟩
        exact .of rfl hs.takes.1 (hs.takes.2.map fun _ h => congrArg array h)
      | «structure» =>
        refine (decodeSeq_echoes left).map fun s t ⟨h, hs⟩ => ⟨congrArg Data.structure h, ?_⟩
        exact .of rfl hs.takes.1 (hs.takes.2.map fun _ h => congrArg Data.structure h)
      | doubleLong =>
        exact scalar_echoes doubleLong rfl .i32 fun _ v _ _ => ⟨rfl, (Takes.i32 v).map (Same.of_eq _)⟩
      | doubleLongUnsigned =>
        exact scalar_echoes doubleLongUnsigned rfl .u32 fun _ v _ _ => ⟨rfl, (Takes.u32 v).map (Same.of_eq _)⟩
      | bcd =>
        exact scalar_echoes bcd rfl .i8 fun _ v _ _ => ⟨rfl, (Takes.i8 v).map (Same.of_eq _)⟩
      | integer =>
        exact scalar_echoes integer rfl .i8 fun _ v _ _ => ⟨rfl, (Takes.i8 v).map (Same.of_eq _)⟩
      | long =>
        exact scalar_echoes long rfl .i16 fun _ v _ _ => ⟨rfl, (Takes.i16 v).map (Same.of_eq _)⟩
      | unsigned =>
        exact scalar_echoes unsigned rfl .u8 fun _ v _ _ => ⟨rfl, (Takes.byte v).map (Same.of_eq _)⟩
      | longUnsigned =>
        exact scalar_echoes longUnsigned rfl .u16 fun _ v _ _ => ⟨rfl, (Takes.u16 v).map (Same.of_eq _)⟩
      | long64 =>
        exact scalar_echoes long64 rfl .i64 fun _ v _ _ => ⟨rfl, (Takes.i64 v).map (Same.of_eq _)⟩
      | long64Unsigned =>
        exact scalar_echoes long64Unsigned rfl .u64 fun _ v _ _ => ⟨rfl, (Takes.u64 v).map (Same.of_eq _)⟩
      | enum =>
        exact scalar_echoes enum rfl .u8 fun _ v _ _ => ⟨rfl, (Takes.byte v).map (Same.of_eq _)⟩
      | float32 =>
        exact scalar_echoes float32 rfl .u32 fun _ v _ _ => ⟨rfl, (Takes.u32 v).map (Same.of_eq _)⟩
      | float64 =>
        exact scalar_echoes float64 rfl .u64 fun _ v _ _ => ⟨rfl, (Takes.u64 v).map (Same.of_eq _)⟩
      | deltaInteger =>
        exact scalar_echoes deltaInteger rfl .i8 fun _ v _ _ => ⟨rfl, (Takes.i8 v).map (Same.of_eq _)⟩
      | deltaLong =>
        exact scalar_echoes deltaLong rfl .i16 fun _ v _ _ => ⟨rfl, (Takes.i16 v).map (Same.of_eq _)⟩
      | deltaDoubleLong =>
        exact scalar_echoes deltaDoubleLong rfl .i32 fun _ v _ _ => ⟨rfl, (Takes.i32 v).map (Same.of_eq _)⟩
      | deltaUnsigned =>
        exact scalar_echoes deltaUnsigned rfl .u8 fun _ v _ _ => ⟨rfl, (Takes.byte v).map (Same.of_eq _)⟩
      | deltaLongUnsigned =>
        exact scalar_echoes deltaLongUnsigned rfl .u16 fun _ v _ _ => ⟨rfl, (Takes.u16 v).map (Same.of_eq _)⟩
      | deltaDoubleLongUnsigned =>
        exact scalar_echoes deltaDoubleLongUnsigned rfl .u32 fun _ v _ _ =>
          ⟨rfl, (Takes.u32 v).map (Same.of_eq _)⟩
      | octetString => exact string_echoes octetString rfl (fun _ => rfl) fun _ => rfl
      | visibleString => exact string_echoes visibleString rfl (fun _ => rfl) fun _ => rfl
      | utf8String => exact string_echoes utf8String rfl (fun _ => rfl) fun _ => rfl
      | boolean =>
        refine scalar_echoes (fun v : UInt8 => boolean (v != 0)) rfl .u8 fun _ v _ _ => ⟨rfl, ?_⟩
        refine (Takes.byte _).map fun w h => ?_
        subst h
        exact Same.of_eq boolean _ (Bool.toUInt8_bne_zero _).symm
      | bitString =>
        refine Echoes.lengthLt.bind fun n n' ⟨h, hn⟩ => ?_
        subst h
        refine ((Echoes.take _).known fun _ _ _ => Read.length_take).map fun bytes _ ⟨h, hlen⟩ => ?_
        subst h
        refine ⟨.refl _, .of rfl (Emit.counted_fault hn _) (.counted hn ?_)⟩
        exact (Takes.taken hlen).map fun _ h => by subst h; exact .refl _
      | dateTime =>
        refine scalar_echoes (fun bs => dateTime (.fromBytes bs)) rfl (.take 12) fun _ v _ _ =>
          ⟨rfl, ?_⟩
        refine (Takes.bytes (n := 12) rfl).map fun w h => ?_
        rw [← h, DateTime.fromBytes_toBytes]
        exact .refl _
      | date =>
        refine scalar_echoes (fun bs => date (.fromBytes bs)) rfl (.take 5) fun _ v _ _ => ⟨rfl, ?_⟩
        refine (Takes.bytes (n := 5) rfl).map fun w h => ?_
        rw [← h, Date.fromBytes_toBytes]
        exact .refl _
      | time =>
        refine scalar_echoes (fun bs => time (.fromBytes bs)) rfl (.take 4) fun _ v _ _ => ⟨rfl, ?_⟩
        refine (Takes.bytes (n := 4) rfl).map fun w h => ?_
        rw [← h]
        exact .refl _
      | compactArray =>
        refine (CompactArray.decodeBody_echoes left).map fun c d ⟨h, hc⟩ =>
          ⟨congrArg compactArray h, ?_⟩
        exact .of rfl hc.takes.1 (hc.takes.2.map fun _ h => congrArg compactArray h)

end Data

end Dlms
