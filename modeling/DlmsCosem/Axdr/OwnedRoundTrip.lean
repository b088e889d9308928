import DlmsCosem.Axdr.DataBuf

/-!
# Owned values are read back

What `DataBuf::parse` gives nests no deeper than the decoder goes: a compact array has one level of
its own, its rows have those of the description, and the description was read with one level fewer
than the array (`DataBuf.fromData_fits`). A tree that nests so far is written without a fault and
read back (`DataBuf.Fits.takes`).
-/

namespace Dlms

/-! ## What is not nested -/

/-- Written in the shortest form, and read back at every level. -/
structure Data.Plain (d : Data) : Prop where
  encoded : ∀ left, d.Encoded (left + 1)
  walked : ∀ left, Takes (skipShortest (left + 1)) d.encode.data fun _ => True

namespace Data

/-- The walk past what follows the tag. `k` is what it does once it has the tag. -/
theorem walked_of {left : Nat} {k : UInt8 → Read Unit} {d : Data}
    (hk : skipShortest (left + 1) = Read.u8 >>= k)
    (h : Takes (k d.tag.asU8) d.contents.data fun _ => True) :
    Takes (skipShortest (left + 1)) d.encode.data fun _ => True := by
  rw [encode, Emit.append_data (Emit.u8_fault _), Emit.u8_data, hk]
  exact (Takes.u8 _).bind fun b hb => by subst hb; exact h

theorem walked_skip {n : Nat} {bs : Bytes} (h : bs.length = n) :
    Takes (Read.skip n) bs fun _ => True :=
  (Takes.taken h).map fun _ _ => trivial

theorem walked_counted {n : Nat} {bs : Bytes} {k : Nat → Read Unit} (h : n < 2 ^ 32)
    (hk : Takes (k n) bs fun _ => True) :
    Takes (Read.shortestLength >>= k) (Emit.length n ++ Emit.bytes bs).data fun _ => True := by
  rw [Emit.append_data (Emit.length_sized h).fault, Emit.bytes_data]
  exact (Takes.shortestLength h).bind fun a ha => by subst ha; exact hk

theorem walked_scalar {left : Nat} {d : Data} (h : d.tag.fixedLen ≠ none) :
    Takes (skipShortest (left + 1)) d.encode.data fun _ => True := by
  cases d with
  | boolean v =>
    refine walked_of rfl (show Takes _ ([v.toUInt8] ++ []) _ from (Takes.byte _).bind fun b hb => ?_)
    subst hb
    cases v <;> exact .pure trivial
  | array | «structure» | compactArray | bitString | octetString | visibleString | utf8String =>
    exact absurd rfl h
  | null | dontCare => exact walked_of rfl (walked_skip rfl)
  | _ => exact walked_of rfl (walked_skip (by simp [contents, Emit.u8, Emit.u16, Emit.u32, Emit.u64]; rfl))

theorem walked_string {left : Nat} {d : Data} {bs : Bytes} (h : d.asBytes = some bs)
    (hlen : bs.length < 2 ^ 32) : Takes (skipShortest (left + 1)) d.encode.data fun _ => True := by
  cases d with
  | octetString v | visibleString v | utf8String v =>
    obtain rfl := Option.some.inj h
    exact walked_of rfl (walked_counted hlen (walked_skip rfl))
  | _ => cases h

theorem walked_bitString {left : Nat} {b : BitStr} (h : b.bytes.length = (b.bits + 7) / 8)
    (hbits : b.bits < 2 ^ 32) :
    Takes (skipShortest (left + 1)) (bitString b).encode.data fun _ => True :=
  walked_of rfl (walked_counted hbits (walked_skip h))

end Data

namespace Data.Plain

theorem of_scalar {d : Data} (h : d.tag.fixedLen ≠ none) : d.Plain :=
  ⟨fun _ => encoded_scalar h, fun _ => walked_scalar h⟩

theorem scalar {α : Type} {m : Read α} {g : α → Data} (hg : ∀ a, (g a).tag.fixedLen ≠ none) :
    Prog.Yields (m >>= fun a => pure (g a)) Plain :=
  (Prog.Yields.any m).map fun a _ => of_scalar (hg a)

theorem string {g : Bytes → Data} (hg : ∀ bs, (g bs).asBytes = some bs) :
    Prog.Yields (Read.lengthPrefixed >>= fun bs => pure (g bs)) Plain := by
  refine Prog.Yields.map (.of_ok Read.lengthPrefixed_lt) fun bs hbs => ?_
  exact ⟨fun _ => encoded_string (hg bs) hbs, fun _ => walked_string (hg bs) hbs⟩

/-- A bit string, once its bytes are there. -/
theorem bitString {f : Nat → Bytes → Read Data} (hf : ∀ bits bytes, bytes.length = (bits + 7) / 8 →
      f bits bytes = pure (.bitString ⟨bits, bytes⟩)) :
    Prog.Yields (Read.length >>= fun bits => Read.take ((bits + 7) / 8) >>= f bits) Plain := by
  refine Prog.Yields.bind (.of_ok Read.length_lt) fun bits hbits => ?_
  refine Prog.Yields.bind (.of_ok Read.length_take) fun bytes hlen => ?_
  rw [hf bits bytes hlen]
  exact .pure ⟨fun _ => encoded_bitString hlen hbits, fun _ => walked_bitString hlen hbits⟩

end Data.Plain

namespace DataBuf

/-! ## The levels of the recursion -/

theorem gather_congr {copy copy' : Data → Result DataBuf} {items : List (Result Data)}
    (h : ∀ d, .ok d ∈ items → copy d = copy' d) : gather copy items = gather copy' items := by
  induction items with
  | nil => rfl
  | cons item items ih =>
    have ih := ih fun d hd => h d (List.mem_cons_of_mem _ hd)
    cases item with
    | error e => rfl
    | ok d =>
      have hd := h d (List.mem_cons_self ..)
      change (copy d >>= fun t => gather copy items >>= fun ts => pure (t :: ts)) =
        (copy' d >>= fun t => gather copy' items >>= fun ts => pure (t :: ts))
      rw [ih, hd]

/-- Two ways to copy that agree on the items of a value. -/
theorem fromDataWith_congr {copy copy' : Data → Result DataBuf} {d : Data}
    (h : ∀ s, d.seq? = some s → ∀ e, .ok e ∈ s.iter.collect.1 → copy e = copy' e) :
    fromDataWith copy d = fromDataWith copy' d := by
  cases d with
  | array s | «structure» s => simp only [fromDataWith, gather_congr (h s rfl)]
  | _ => rfl

theorem levels_lt {d : Data} {left : Nat} (h : d.Decoded left) : levels d < left := by
  obtain ⟨r, r', h⟩ := h
  cases left with
  | zero => cases h
  | succ left =>
    have hc := (Data.decodeAt_checked left).of_run h
    unfold levels
    cases hs : d.seq? with
    | none => exact Nat.succ_pos _
    | some s => exact Nat.lt_succ_of_le (hc.seq s hs).left_eq.le

theorem levels_seq {d : Data} {s : Seq} (h : d.seq? = some s) : levels d = s.left := by
  rw [levels, h]
  rfl

/-- The items of a sequence nest less far than it allows. -/
theorem levels_item {s : Seq} {e : Data} (h : .ok e ∈ s.iter.collect.1) : levels e < s.left :=
  levels_lt (SeqIter.decoded_of_mem h)

/-- How many levels are given makes no difference where they are enough. -/
theorem fromDataAt_congr {n m : Nat} {d : Data} (hn : levels d ≤ n) (hm : levels d ≤ m) :
    fromDataAt n d = fromDataAt m d := by
  induction n generalizing m d with
  | zero =>
    -- The items are none, so what copies them is not asked.
    have hnone : ∀ copy copy' : Data → Result DataBuf, fromDataWith copy d = fromDataWith copy' d := by
      refine fun copy copy' => fromDataWith_congr fun s hs e he => ?_
      have hlt := levels_item he
      rw [levels_seq hs] at hn
      omega
    cases m <;> exact hnone _ _
  | succ n ih =>
    cases m with
    | zero =>
      refine fromDataWith_congr fun s hs e he => ?_
      have hlt := levels_item he
      rw [levels_seq hs] at hm
      omega
    | succ m =>
      refine fromDataWith_congr fun s hs e he => ?_
      have hlt := levels_item he
      rw [levels_seq hs] at hn hm
      exact ih (by omega) (by omega)

/-- `from_data` is its own copy of the items. -/
theorem fromData_eq (d : Data) : fromData d = fromDataWith fromData d := by
  have hcopy : fromDataAt (levels d + 1) d = fromDataWith fromData d := by
    refine fromDataWith_congr fun s hs e he => ?_
    have hlt := levels_item he
    rw [← levels_seq hs] at hlt
    exact fromDataAt_congr hlt.le le_rfl
  rw [← hcopy]
  exact fromDataAt_congr le_rfl (Nat.le_succ _)

/-! ## Trees that are read back -/

/-- A tree that nests at most `left` levels. What is not a sequence was copied from a value that is
read back from its encoding. -/
def Fits : Nat → DataBuf → Prop
  | 0, _ => False
  | left + 1, array ts => ts.length < 2 ^ 32 ∧ ∀ t ∈ ts, Fits left t
  | left + 1, .structure ts => ts.length < 2 ^ 32 ∧ ∀ t ∈ ts, Fits left t
  | _ + 1, t => ∃ d, ofScalar d = .ok t ∧ d.Plain

theorem encode_ofScalar {d : Data} {t : DataBuf} (h : ofScalar d = .ok t) : t.encode = d.encode := by
  cases d <;> cases h <;> rfl

theorem fromData_ofScalar {d : Data} {t : DataBuf} (h : ofScalar d = .ok t) : fromData d = .ok t := by
  rw [fromData_eq]
  cases d <;> cases h <;> rfl

/-- What is not nested is the same everywhere. -/
theorem eq_of_same {d e : Data} {t : DataBuf} (h : ofScalar d = .ok t) (hs : d.Same e) : e = d := by
  cases d <;> cases e <;> simp_all [Data.Same, Data.unplaced, ofScalar, Error.fail]

/-- A tree that is written and read back, with `left` levels left. -/
structure Returns (left : Nat) (t : DataBuf) : Prop where
  fault : t.encode.fault = none
  takes : Takes (Data.decodeAt left) t.encode.data fun d => fromData d = .ok t

namespace Returns

variable {left : Nat} {t : DataBuf} {ts : List DataBuf}

theorem encodeAll_fault (h : ∀ t ∈ ts, Returns left t) : (encodeAll ts).fault = none := by
  induction ts with
  | nil => rfl
  | cons t ts ih =>
    rw [encodeAll, Emit.append_fault_of_none (h t (List.mem_cons_self ..)).fault]
    exact ih fun t ht => h t (List.mem_cons_of_mem _ ht)

theorem encodeAll_data (h : t.Returns left) :
    (encodeAll (t :: ts)).data = t.encode.data ++ (encodeAll ts).data := by
  rw [encodeAll, Emit.append_data h.fault]

/-- A walk past a value takes what the decoder takes. -/
theorem skip (h : t.Returns left) : Takes (Data.skip left) t.encode.data fun _ => True := by
  intro r tail hr
  obtain ⟨d, r', hd, -, hadv⟩ := h.takes r tail hr
  exact ⟨(), r', (Data.walks_skip left r r').mp ⟨d, hd⟩, trivial, hadv⟩

theorem times (h : ∀ t ∈ ts, Returns left t) :
    Takes (Prog.times ts.length (Data.skip left)) (encodeAll ts).data fun _ => True := by
  induction ts with
  | nil => exact .pure trivial
  | cons t ts ih =>
    have ht := h t (List.mem_cons_self ..)
    rw [ht.encodeAll_data]
    exact ht.skip.bind fun _ _ => ih fun t ht => h t (List.mem_cons_of_mem _ ht)

/-- The items are iterated, and each is copied to the tree it was written from. -/
theorem gather (h : ∀ t ∈ ts, Returns left t) {r : Reader} {tail : Bytes}
    (hr : r.rest = (encodeAll ts).data ++ tail) :
    DataBuf.gather fromData (SeqIter.collect ⟨r, ts.length, left⟩).1 = .ok ts := by
  induction ts generalizing r with
  | nil =>
    rw [List.length_nil, SeqIter.collect_zero]
    rfl
  | cons t ts ih =>
    have ht := h t (List.mem_cons_self ..)
    rw [ht.encodeAll_data, List.append_assoc] at hr
    obtain ⟨d, r', hd, hcopy, hadv⟩ := ht.takes r _ hr
    have hr' : r'.rest = (encodeAll ts).data ++ tail := by rw [hadv.rest, hr, List.drop_left]
    have ih := ih (fun t ht => h t (List.mem_cons_of_mem _ ht)) hr'
    rw [List.length_cons, SeqIter.collect_succ, hd]
    change (fromData d >>= fun t => DataBuf.gather fromData _ >>= fun ts => pure (t :: ts)) = _
    rw [hcopy, ih]
    rfl

/-- The sequence of the items. -/
theorem encoded (hlen : ts.length < 2 ^ 32) (h : ∀ t ∈ ts, Returns left t) (base : Nat) :
    Seq.Encoded left ⟨ts.length, (encodeAll ts).data, base, left⟩ :=
  ⟨rfl, hlen, times h⟩

theorem gather_seq (h : ∀ t ∈ ts, Returns left t) {s : Seq}
    (hs : s.unplaced = ⟨ts.length, (encodeAll ts).data, 0, left⟩) :
    DataBuf.gather fromData s.iter.collect.1 = .ok ts := by
  obtain ⟨count, raw, base, l⟩ := s
  obtain ⟨rfl, rfl, -, rfl⟩ := Seq.mk.inj hs
  exact gather h (show (encodeAll ts).data = (encodeAll ts).data ++ [] by simp)

/-- What stands after the tag of a sequence. -/
theorem contents_fault (hlen : ts.length < 2 ^ 32) (h : ∀ t ∈ ts, Returns left t) :
    (Emit.length ts.length ++ encodeAll ts).fault = none := by
  rw [Emit.append_fault_of_none (Emit.length_sized hlen).fault]
  exact encodeAll_fault h

theorem contents_data (hlen : ts.length < 2 ^ 32) :
    (Emit.length ts.length ++ encodeAll ts).data =
      (Emit.length ts.length ++ Emit.bytes (encodeAll ts).data).data := by
  have hf := (Emit.length_sized hlen).fault
  rw [Emit.append_data hf, Emit.append_data hf, Emit.bytes_data]

theorem array (hlen : ts.length < 2 ^ 32) (h : ∀ t ∈ ts, Returns left t) :
    (array ts).Returns (left + 1) := by
  refine ⟨?_, ?_⟩
  · rw [encode, Emit.append_fault_of_none (Emit.u8_fault _)]
    exact contents_fault hlen h
  · have ht := (encoded hlen h 0).array.takes
    rw [Data.encode, Data.contents, Emit.append_data (Emit.u8_fault _)] at ht
    rw [encode, Emit.append_data (Emit.u8_fault _), contents_data hlen]
    refine ht.mono fun d hd => ?_
    cases d with
    | array s =>
      rw [fromData_eq, fromDataWith, gather_seq h (Data.array.inj hd).symm]
      rfl
    | _ => cases hd

theorem «structure» (hlen : ts.length < 2 ^ 32) (h : ∀ t ∈ ts, Returns left t) :
    (DataBuf.structure ts).Returns (left + 1) := by
  refine ⟨?_, ?_⟩
  · rw [encode, Emit.append_fault_of_none (Emit.u8_fault _)]
    exact contents_fault hlen h
  · have ht := (encoded hlen h 0).structure.takes
    rw [Data.encode, Data.contents, Emit.append_data (Emit.u8_fault _)] at ht
    rw [encode, Emit.append_data (Emit.u8_fault _), contents_data hlen]
    refine ht.mono fun d hd => ?_
    cases d with
    | «structure» s =>
      rw [fromData_eq, fromDataWith, gather_seq h (Data.structure.inj hd).symm]
      rfl
    | _ => cases hd

end Returns

theorem Fits.returns {left : Nat} {t : DataBuf} (h : t.Fits left) : t.Returns left := by
  induction left generalizing t with
  | zero => exact h.elim
  | succ left ih =>
    cases t with
    | array ts => exact .array h.1 fun t ht => ih (h.2 t ht)
    | «structure» ts => exact .structure h.1 fun t ht => ih (h.2 t ht)
    | _ =>
      obtain ⟨d, hd, henc⟩ := h
      refine ⟨?_, ?_⟩
      · rw [encode_ofScalar hd]
        exact (henc.encoded left).fault
      · rw [encode_ofScalar hd]
        exact (henc.encoded left).takes.mono fun e he => by rw [eq_of_same hd he]; exact fromData_ofScalar hd

end DataBuf

/-! ## The rows of a compact array -/

/-- What a decoder gives that is neither a sequence nor a compact array. -/
theorem Data.decodeAt_plain (left : Nat) : Prog.Yields (decodeAt (left + 1)) fun d =>
    d.seq? = none → (∀ c, d ≠ .compactArray c) → d.Plain := by
  have hplain : ∀ {m : Read Data}, Prog.Yields m Plain → Prog.Yields m fun d =>
      d.seq? = none → (∀ c, d ≠ .compactArray c) → d.Plain :=
    fun h => h.mono fun _ hd _ _ => hd
  refine (Prog.Yields.any Read.u8).bind fun b _ => ?_
  cases DataTag.fromU8 b with
  | none => exact fun r d h => nomatch h
  | some tag =>
    cases tag with
    | nullData | dontCare => exact hplain (.pure (.of_scalar nofun))
    | array | «structure» => exact (Prog.Yields.any _).map fun s _ h => nomatch h
    | compactArray => exact (Prog.Yields.any _).map fun c _ _ h => absurd rfl (h c)
    | octetString | visibleString | utf8String => exact hplain (.string fun _ => rfl)
    | bitString => exact hplain (.bitString fun _ _ _ => rfl)
    | _ => exact hplain (.scalar fun _ => nofun)

theorem leaf_plain (tag : DataTag) : Prog.Yields (leaf tag) Data.Plain := by
  cases tag with
  | nullData | dontCare => exact .pure (.of_scalar nofun)
  | array | «structure» | compactArray => exact fun r d h => nomatch h
  | octetString | visibleString | utf8String => exact .string fun _ => rfl
  | bitString =>
    refine .bitString fun bits bytes hlen => ?_
    rw [BitStr.new, if_neg (not_not.mpr hlen)]
  | _ => exact .scalar fun _ => nofun

theorem DataBuf.Fits.plain {left : Nat} {d : Data} {t : DataBuf} (h : ofScalar d = .ok t) (hd : d.Plain) :
    t.Fits (left + 1) := by
  cases d <;> cases h <;> exact ⟨_, rfl, hd⟩

/-- The count of a description was read from four bytes at most. -/
def TypeDesc.Counted (t : TypeDesc) : Prop := ∀ n fields, t = .structure n fields → n < 2 ^ 32

theorem TypeDesc.parseAt_counted (left : Nat) : Prog.Yields (parseAt left) Counted := by
  cases left with
  | zero => exact fun r t h => nomatch h
  | succ left =>
    refine (Prog.Yields.any Read.u8).bind fun b _ => ?_
    cases DataTag.fromU8 b with
    | none => exact fun r t h => nomatch h
    | some tag =>
      cases tag with
      | array =>
        exact (Prog.Yields.any _).bind fun _ _ => (Prog.Yields.any _).bind fun _ _ =>
          (Prog.Yields.any _).map fun _ _ => nofun
      | «structure» =>
        refine Prog.Yields.bind (.of_ok Read.length_lt) fun n hn => ?_
        refine (Prog.Yields.any _).bind fun _ _ => (Prog.Yields.any _).map fun _ _ => ?_
        rintro _ _ ⟨⟩
        exact hn
      | compactArray => exact fun r t h => nomatch h
      | _ => exact .pure nofun

/-- Every run of `m` that ends well gives what satisfies `P`, and spends of the budget. -/
def Spends {α : Type} (m : Expand α) (P : α → Prop) : Prop :=
  ∀ s a s', m s = (.ok a, s') → P a ∧ s'.budget < s.budget

namespace Spends

variable {m : Expand DataBuf} {P : DataBuf → Prop}

theorem repeated (h : Spends m P) (n : Nat) (s : Expansion) (ts : List DataBuf) (s' : Expansion)
    (hr : Expand.repeated m n s = (.ok ts, s')) :
    ts.length = n ∧ (∀ t ∈ ts, P t) ∧ s'.budget ≤ s.budget := by
  induction n generalizing s ts with
  | zero =>
    obtain ⟨rfl, rfl⟩ : [] = ts ∧ s = s' := by simpa [Expand.repeated] using hr
    exact ⟨rfl, nofun, le_rfl⟩
  | succ n ih =>
    obtain ⟨t, s₁, ht, hr⟩ := Prog.bind_ok hr
    obtain ⟨ts', s₂, hts, hr⟩ := Prog.bind_ok hr
    obtain ⟨rfl, rfl⟩ : t :: ts' = ts ∧ s₂ = s' := by simpa using hr
    obtain ⟨hp, hlt⟩ := h s t s₁ ht
    obtain ⟨hlen, hall, hle⟩ := ih s₁ ts' hts
    refine ⟨by rw [List.length_cons, hlen], fun u hu => ?_, hle.trans hlt.le⟩
    obtain rfl | hu := List.mem_cons.mp hu
    · exact hp
    · exact hall u hu

theorem buildFields {build : TypeDesc → Expand DataBuf} (h : ∀ desc, desc.Counted → Spends (build desc) P)
    (n : Nat) (fields : Reader) (s : Expansion) (ts : List DataBuf) (s' : Expansion)
    (hr : Dlms.buildFields build n fields s = (.ok ts, s')) :
    ts.length = n ∧ (∀ t ∈ ts, P t) ∧ s'.budget ≤ s.budget := by
  induction n generalizing fields s ts with
  | zero =>
    obtain ⟨rfl, rfl⟩ : [] = ts ∧ s = s' := by simpa [Dlms.buildFields] using hr
    exact ⟨rfl, nofun, le_rfl⟩
  | succ n ih =>
    rw [Dlms.buildFields] at hr
    rcases hparse : TypeDesc.parseAt maxDepth fields with ⟨_ | inner, fields'⟩
    · rw [hparse] at hr
      cases hr
    · rw [hparse] at hr
      obtain ⟨t, s₁, ht, hr⟩ := Prog.bind_ok hr
      obtain ⟨ts', s₂, hts, hr⟩ := Prog.bind_ok hr
      obtain ⟨rfl, rfl⟩ : t :: ts' = ts ∧ s₂ = s' := by simpa using hr
      obtain ⟨hp, hlt⟩ := h inner ((TypeDesc.parseAt_counted _).of_run hparse) s t s₁ ht
      obtain ⟨hlen, hall, hle⟩ := ih fields' s₁ ts' hts
      refine ⟨by rw [List.length_cons, hlen], fun u hu => ?_, hle.trans hlt.le⟩
      obtain rfl | hu := List.mem_cons.mp hu
      · exact hp
      · exact hall u hu

/-- No more rows than there was budget. -/
theorem rows (h : Spends m P) (n : Nat) (s : Expansion) (ts : List DataBuf) (s' : Expansion)
    (hr : CompactArray.rows m n s = (.ok ts, s')) :
    ts.length + s'.budget ≤ s.budget ∧ ∀ t ∈ ts, P t := by
  induction n generalizing s ts with
  | zero =>
    obtain ⟨rfl, rfl⟩ : [] = ts ∧ s = s' := by simpa [CompactArray.rows] using hr
    exact ⟨by simp, nofun⟩
  | succ n ih =>
    obtain ⟨empty, s₀, hempty, hr⟩ := Prog.bind_ok hr
    obtain rfl : s = s₀ := (Prod.mk.inj hempty).2
    split at hr
    · obtain ⟨rfl, rfl⟩ : [] = ts ∧ s = s' := by simpa using hr
      exact ⟨by simp, nofun⟩
    · obtain ⟨before, s₁, hbefore, hr⟩ := Prog.bind_ok hr
      obtain rfl : s = s₁ := (Prod.mk.inj hbefore).2
      obtain ⟨t, s₂, ht, hr⟩ := Prog.bind_ok hr
      obtain ⟨⟨⟩, s₃, hprogress, hr⟩ := Prog.bind_ok hr
      obtain rfl : s₂ = s₃ := by
        unfold Expand.ensureProgress at hprogress
        split at hprogress
        · cases hprogress
        · exact (Prod.mk.inj hprogress).2
      obtain ⟨ts', s₄, hts, hr⟩ := Prog.bind_ok hr
      obtain ⟨rfl, rfl⟩ : t :: ts' = ts ∧ s₄ = s' := by simpa using hr
      obtain ⟨hp, hlt⟩ := h s t s₂ ht
      obtain ⟨hle, hall⟩ := ih s₂ ts' hts
      refine ⟨by rw [List.length_cons]; omega, fun u hu => ?_⟩
      obtain rfl | hu := List.mem_cons.mp hu
      · exact hp
      · exact hall u hu

end Spends

/-- A row nests as far as its description, and every node of it was paid for. -/
theorem build_fits (left : Nat) (desc : TypeDesc) (h : desc.Counted) :
    Spends (build left desc) (DataBuf.Fits left) := by
  induction left generalizing desc with
  | zero => exact fun s t s' hr => by cases hr
  | succ left ih =>
    intro s t s' hr
    obtain ⟨⟨⟩, s₁, hspend, hr⟩ := Prog.bind_ok hr
    have hlt : s₁.budget < s.budget := by
      unfold Expand.spend at hspend
      split at hspend
      · cases hspend
      · rename_i budget hbudget
        obtain ⟨-, rfl⟩ := Prod.mk.inj hspend
        rw [hbudget]
        exact Nat.lt_succ_self _
    cases desc with
    | scalar tag =>
      obtain ⟨d, s₂, hleaf, hr⟩ := Prog.bind_ok hr
      obtain ⟨hd, rfl⟩ := Prod.mk.inj hleaf
      rw [Prog.ofExcept_run] at hr
      obtain ⟨ht, rfl⟩ := Prod.mk.inj hr
      exact ⟨.plain ht (leaf_plain tag s₁.contents d hd), hlt⟩
    | array len elem =>
      dsimp only at hr
      rcases hparse : TypeDesc.parseAt maxDepth (Reader.new elem) with ⟨_ | inner, r⟩
      · rw [hparse] at hr
        cases hr
      · rw [hparse] at hr
        obtain ⟨ts, s₂, hts, hr⟩ := Prog.bind_ok hr
        obtain ⟨rfl, rfl⟩ : DataBuf.array ts = t ∧ s₂ = s' := by simpa using hr
        have hinner := ih inner ((TypeDesc.parseAt_counted _).of_run hparse)
        obtain ⟨hlen, hall, hle⟩ := hinner.repeated len.toNat s₁ ts s₂ hts
        have hlen' := len.toNat_lt
        exact ⟨⟨by omega, hall⟩, by omega⟩
    | «structure» count fields =>
      obtain ⟨ts, s₂, hts, hr⟩ := Prog.bind_ok hr
      obtain ⟨rfl, rfl⟩ : DataBuf.structure ts = t ∧ s₂ = s' := by simpa using hr
      obtain ⟨hlen, hall, hle⟩ := Spends.buildFields ih count (Reader.new fields) s₁ ts s₂ hts
      exact ⟨⟨by rw [hlen]; exact h count fields rfl, hall⟩, by omega⟩

theorem CompactArray.toRows_fits {c : CompactArray} {ts : List DataBuf} (h : c.toRows = .ok ts) :
    ts.length < 2 ^ 32 ∧ ∀ t ∈ ts, t.Fits c.left := by
  obtain ⟨desc, hdesc, h⟩ := Result.bind_ok.mp h
  have hcounted : desc.Counted := TypeDesc.parseAt_counted c.left _ desc hdesc
  obtain ⟨hle, hall⟩ := (build_fits c.left desc hcounted).rows _ _ ts _ (Prod.ext h rfl)
  refine ⟨lt_of_le_of_lt (Nat.le_of_add_right_le hle) ?_, hall⟩
  exact (by norm_num [maxCompactNodes] : maxCompactNodes < 2 ^ 32)

namespace DataBuf

theorem gather_ok {copy : Data → Result DataBuf} {items : List (Result Data)} {ts : List DataBuf}
    (h : gather copy items = .ok ts) :
    ts.length = items.length ∧ ∀ t ∈ ts, ∃ d, .ok d ∈ items ∧ copy d = .ok t := by
  induction items generalizing ts with
  | nil =>
    obtain rfl := Except.ok.inj h
    exact ⟨rfl, nofun⟩
  | cons item items ih =>
    obtain ⟨d, hd, h⟩ := Result.bind_ok.mp h
    obtain ⟨t, ht, h⟩ := Result.bind_ok.mp h
    obtain ⟨ts', hts, h⟩ := Result.bind_ok.mp h
    obtain rfl := Except.ok.inj h
    obtain ⟨hlen, hall⟩ := ih hts
    refine ⟨by rw [List.length_cons, List.length_cons, hlen], fun u hu => ?_⟩
    obtain rfl | hu := List.mem_cons.mp hu
    · exact ⟨d, by rw [hd]; exact List.mem_cons_self .., ht⟩
    · obtain ⟨e, he, hcopy⟩ := hall u hu
      exact ⟨e, List.mem_cons_of_mem _ he, hcopy⟩

/-- The copy of what was decoded nests no further than the decoder went. -/
theorem fromData_fits {left : Nat} {d : Data} {t : DataBuf} (hd : d.Decoded left)
    (h : fromData d = .ok t) : t.Fits left := by
  induction left generalizing d t with
  | zero =>
    obtain ⟨r, r', hd⟩ := hd
    cases hd
  | succ left ih =>
    obtain ⟨r, r', hr⟩ := hd
    have hchecked := (Data.decodeAt_checked left).of_run hr
    have hitems : ∀ s ts, d.seq? = some s → gather fromData s.iter.collect.1 = .ok ts →
        ts.length < 2 ^ 32 ∧ ∀ t ∈ ts, Fits left t := by
      intro s ts hs hts
      have hseq := hchecked.seq s hs
      obtain ⟨hlen, hall⟩ := gather_ok hts
      obtain ⟨⟨⟩, reader, hrun, -, -⟩ := hseq.raw (Reader.withBase s.raw s.base) [] (by simp)
      rw [← hseq.left_eq] at hrun
      have hcollect := (SeqIter.collect_of_times hrun).1
      refine ⟨by rw [hlen]; exact hcollect ▸ hseq.count_lt, fun t ht => ?_⟩
      obtain ⟨e, he, hcopy⟩ := hall t ht
      have hdec := SeqIter.decoded_of_mem he
      rw [hseq.left_eq] at hdec
      exact ih hdec hcopy
    rw [fromData_eq] at h
    cases hseq : d.seq? with
    | some s =>
      cases d with
      | array s' | «structure» s' =>
        obtain ⟨ts, hts, h⟩ := Result.bind_ok.mp h
        obtain rfl := Except.ok.inj h
        exact hitems s' ts rfl hts
      | _ => cases hseq
    | none =>
      have hplain := (Data.decodeAt_plain left).of_run hr hseq
      cases d with
      | array | «structure» => cases hseq
      | compactArray c =>
        obtain ⟨ts, hts, h⟩ := Result.bind_ok.mp h
        obtain rfl := Except.ok.inj h
        have hfits := CompactArray.toRows_fits hts
        rw [(hchecked.compactArray c rfl).left_eq] at hfits
        exact hfits
      | _ =>
        refine .plain ?_ (hplain nofun)
        exact h

end DataBuf

end Dlms
